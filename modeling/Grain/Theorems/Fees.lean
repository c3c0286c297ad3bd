import Grain.Lemmas.Change
import Grain.Fees

/-!
# The fee bound

A transaction past its reserve check is settled on one of four exits. `run_afterCommands` says what each leaves behind; from it
follows exactly when the charge stays within the reserve (`fee_bound`).
-/

namespace Grain

open Eff Prog

variable {Γ : Ctx} {b : BParams}

/-! ## Gas and tokens -/

/-- What `token_2_gas` accepts: a positive rate, and a limit in gas that is the limit in tokens at this rate. -/
structure Priced (x : Reserved) (b : BParams) : Prop where
  priority : 0 ≤ x.a.priority ∧ x.a.priority ≤ 99
  base : 0 < b.fees.gasPerToken
  rate : 0 < x.rate b
  tokens : 0 ≤ x.a.gasLimit
  limit : x.gasLimitGas = x.a.gasLimit * x.rate b
  bound : x.gasLimitGas ≤ 2 ^ 63 - 1

theorem gasPerToken_ok {p base g : Int} (h : gasPerToken p base = .ok g) :
    0 < base ∧ g = (wrap64 (base * (100 - p))).tdiv 100 ∧ 0 < g := by
  unfold gasPerToken at h
  split at h
  · cases h
  · rename_i hb
    dsimp only at h
    split at h
    · cases h
    · rename_i hg
      cases h
      exact ⟨by omega, rfl, by omega⟩

theorem token2Gas_ok {n p base g : Int} (h : token2Gas n p base = .ok g) :
    (0 ≤ p ∧ p ≤ 99) ∧ 0 ≤ n ∧ ∃ r, gasPerToken p base = .ok r ∧ g = n * r ∧ g ≤ 2 ^ 63 - 1 := by
  unfold token2Gas at h
  split at h
  · cases h
  · rename_i hp
    split at h
    · cases h
    · rename_i hn
      cases hr : gasPerToken p base with
      | error e =>
        rw [hr] at h
        cases h
      | ok r =>
        rw [hr] at h
        change (if n * r > 2 ^ 63 - 1 then _ else _) = _ at h
        split at h
        · cases h
        · rename_i hm
          cases h
          exact ⟨by omega, by omega, r, rfl, rfl, by omega⟩

theorem gas2Token_eq {x : Reserved} (hx : Priced x b) (gas : Int) :
    gas2Token gas x.a.priority b.fees.gasPerToken =
      if gas < 0 then .error (.err "gasUsed must be >= 0") else .ok (x.tokens b gas) := by
  have hg : gasPerToken x.a.priority b.fees.gasPerToken = .ok (x.rate b) := by
    have hb := hx.base
    have hr := hx.rate
    unfold Reserved.rate at hr ⊢
    unfold gasPerToken
    rw [if_neg (by omega)]
    dsimp only
    rw [if_neg (by omega)]
  have hp := hx.priority
  unfold gas2Token
  rw [if_neg (by omega), hg]
  rfl

/-- The charge is at least a token, and fits. -/
theorem tokens_bounds {x : Reserved} (hx : Priced x b) (gas : Int) : 1 ≤ x.tokens b gas ∧ x.tokens b gas ≤ 2 ^ 63 - 1 := by
  have hr := hx.rate
  have hw := inI64_wrap64 (gas + x.rate b - 1)
  have hle : (wrap64 (gas + x.rate b - 1)).tdiv (x.rate b) ≤ 2 ^ 63 - 1 := by
    unfold InI64 at hw
    rcases Int.le_total 0 (wrap64 (gas + x.rate b - 1)) with h | h
    · have := Int.tdiv_le_self (x.rate b) h
      omega
    · have := Int.tdiv_nonneg (by omega : 0 ≤ -wrap64 (gas + x.rate b - 1)) (by omega : 0 ≤ x.rate b)
      rw [Int.neg_tdiv] at this
      omega
  unfold Reserved.tokens
  omega

/-- The charge for an amount of gas is within the limit exactly if the limit is a token at least and covers the gas. -/
theorem tokens_le_iff {x : Reserved} (hx : Priced x b) {gas : Int} (h : 0 ≤ gas) (hadd : InI64 (gas + x.rate b)) :
    x.tokens b gas ≤ x.a.gasLimit ↔ 1 ≤ x.a.gasLimit ∧ gas ≤ x.gasLimitGas := by
  have hr := hx.rate
  have hsub : InI64 (gas + x.rate b - 1) := by
    unfold InI64 at hadd ⊢
    omega
  unfold Reserved.tokens
  rw [wrap64_eq hsub, Int.tdiv_eq_ediv_of_nonneg (by omega), hx.limit, max_le_iff]
  have hceil : (gas + x.rate b - 1) / x.rate b ≤ x.a.gasLimit ↔ gas ≤ x.a.gasLimit * x.rate b := by
    rw [← Int.lt_add_one_iff, Int.ediv_lt_iff_lt_mul hr, Int.add_mul, Int.one_mul]
    omega
  rw [hceil]

/-! ## Charging -/

theorem raises_addBalance (a : Int) (o : DataObj) : (Write.addBalance a).raises o = false := by
  unfold Write.raises
  rfl

theorem balanceOf_addBalance (a : Int) (o : DataObj) (h : (Payload.address? o.payload).isSome) :
    balanceOf ((Write.addBalance a).apply o) = wrap64 (balanceOf o + a) := by
  obtain ⟨t, l, p⟩ := o
  cases p with
  | addressState u => rfl
  | _ => cases h

theorem balanceOf_addBalance_other (a : Int) (o : DataObj) (h : ¬ (Payload.address? o.payload).isSome) :
    balanceOf ((Write.addBalance a).apply o) = balanceOf o := by
  obtain ⟨t, l, p⟩ := o
  cases p with
  | addressState u => exact absurd rfl h
  | _ => rfl

theorem address_addBalance (a : Int) (o : DataObj) :
    (Payload.address? ((Write.addBalance a).apply o).payload).isSome = (Payload.address? o.payload).isSome := by
  obtain ⟨t, l, p⟩ := o
  cases p <;> rfl

/-- The state after a balance was changed through a pointer. -/
def St.pay (s : St) (d : DataPtr) (a : Int) : St :=
  { s with store := s.store.setObj d ((Write.addBalance a).apply (s.store.deref d))
           overflow := s.overflow || (Write.addBalance a).overflows (s.store.deref d) }

theorem run_assign_addBalance (d : DataPtr) (a : Int) (s : St) : runEff Γ (assign d (.addBalance a)) s = (.ok (), s.pay d a) := by
  unfold runEff assign Eff.op
  rw [run_bind_ok _ (run_ask _ _ _)]
  simp only [exec, raises_addBalance]
  rfl

theorem live_pay (s : St) (d : DataPtr) (a : Int) : (s.pay d a).Live d ↔ s.Live d := by
  unfold St.Live St.pay
  simp only [Store.cell_setObj, Store.deref_setObj, if_true, address_addBalance]

theorem leafBalance_of_live {s : St} {d : DataPtr} (h : s.Live d) : s.leafBalance d = balanceOf (s.store.deref d) := by
  unfold St.leafBalance Store.leaf
  rw [h.1]
  rfl

theorem leafBalance_pay_live {s : St} {d : DataPtr} (h : s.Live d) (a : Int) :
    (s.pay d a).leafBalance d = wrap64 (s.leafBalance d + a) := by
  rw [leafBalance_of_live ((live_pay s d a).2 h), leafBalance_of_live h]
  unfold St.pay
  simp only [Store.deref_setObj, if_true]
  exact balanceOf_addBalance a _ h.2

theorem leafBalance_pay_other {s : St} {d : DataPtr} (h : ¬ s.Live d) (a : Int) : (s.pay d a).leafBalance d = s.leafBalance d := by
  unfold St.leafBalance Store.leaf St.pay
  simp only [Store.cell_setObj, Store.deref_setObj]
  cases hd : (s.store.cell d.parent).data with
  | none => rfl
  | some g =>
    simp only [Option.map_some, Option.getD_some]
    by_cases hg : (⟨g, d.parent⟩ : DataPtr) = d
    · rw [if_pos hg, hg]
      refine balanceOf_addBalance_other a _ ?_
      intro hs
      refine h ⟨?_, hs⟩
      rw [hd, ← hg]
    · rw [if_neg hg]

/-- The state after the rewards grew. -/
def St.earn (s : St) (n : Int) : St :=
  { s with nodeRewards := wrap64 (s.nodeRewards + n), overflow := s.overflow || ¬ InI64 (s.nodeRewards + n) }

/-- `charge_gas` takes the tokens and pays them to the rewards, unless the amount of gas is negative. -/
theorem run_chargeGas {x : Reserved} (hx : Priced x b) (d : DataPtr) (gas : Int) (s : St) :
    runEff Γ (chargeGas b d x.a.priority gas) s =
      if gas < 0 then (.error (.err "gasUsed must be >= 0"), s)
      else (.ok (), (s.pay d (-x.tokens b gas)).earn (x.tokens b gas)) := by
  unfold chargeGas lift
  rw [gas2Token_eq hx]
  by_cases hg : gas < 0
  · rw [if_pos hg, if_pos hg]
    rfl
  · rw [if_neg hg, if_neg hg]
    unfold runEff
    rw [run_bind_ok _ (run_ofExcept _ _ _), run_bind_ok _ (run_assign_addBalance d _ s)]
    rfl

/-- The state at the end of an exit: with the charge, if there is one. -/
def Reserved.chargedState (x : Reserved) (b : BParams) (z : Settlement) : St :=
  if z.Charges then (z.st.pay x.uu.ptr (-x.tokens b z.gas)).earn (x.tokens b z.gas) else z.st

theorem run_rollback (s : St) : Prog.run (exec Γ) rollback s = exec Γ .rollback s := by
  unfold rollback Eff.op
  rw [run_bind_ok _ (run_ask _ _ _), run_ofExcept]

/-- `fail` undoes the transaction, charges the gas, and stops. -/
theorem run_fail {x : Reserved} (hx : Priced x b) (msg : String) (gas : Int) (s : St) :
    ∃ e, runEff Γ (fail (α := Unit) b x.uu.ptr x.a.priority msg gas) s = (.error e, x.chargedState b (undone Γ b gas s)) := by
  obtain ⟨s1, hs1⟩ : ∃ s1, s1 = (exec Γ (.addGas ((exec Γ .rollSize s).1 * b.fees.gasPerByte)) s).2 := ⟨_, rfl⟩
  have hz : undone Γ b gas s = { succeeded := false, raised := !(exec Γ .rollback s1).1.isOk, gas := gas,
                                 st := (exec Γ .rollback s1).2 } := by rw [hs1]; rfl
  have hrun : runEff Γ (fail (α := Unit) b x.uu.ptr x.a.priority msg gas) s =
      runEff Γ (rollback >>= fun _ => chargeGas b x.uu.ptr x.a.priority gas >>= fun _ => err msg) s1 := by
    rw [hs1]
    rfl
  rw [hrun, hz]
  unfold runEff
  cases hr : (exec Γ .rollback s1).1 with
  | error e =>
    have hroll : Prog.run (exec Γ) rollback s1 = (.error e, (exec Γ .rollback s1).2) := by rw [run_rollback, ← hr]
    refine ⟨e, ?_⟩
    rw [run_bind_error _ hroll, Reserved.chargedState, if_neg]
    rintro ⟨h, -⟩
    cases h
  | ok a =>
    have hroll : Prog.run (exec Γ) rollback s1 = (.ok a, (exec Γ .rollback s1).2) := by rw [run_rollback, ← hr]
    have hcharge := run_chargeGas (Γ := Γ) hx x.uu.ptr gas (exec Γ .rollback s1).2
    unfold runEff at hcharge
    rw [run_bind_ok _ hroll, Reserved.chargedState]
    by_cases hg : gas < 0
    · rw [if_pos hg] at hcharge
      refine ⟨.err "gasUsed must be >= 0", ?_⟩
      rw [run_bind_error _ hcharge, if_neg]
      rintro ⟨-, h⟩
      exact Int.not_le.2 hg h
    · rw [if_neg hg] at hcharge
      refine ⟨.err msg, ?_⟩
      rw [run_bind_ok _ hcharge, if_pos ⟨rfl, Int.not_lt.1 hg⟩]
      rfl

/-- Recording hashes changes no payload. -/
theorem Store.Changes.leaf_hash {s t : Store} (h : Store.Changes (· = .hash) s t) (c : CellPtr) :
    (t.cell c).data = (s.cell c).data ∧ t.deref = s.deref := by
  refine h.inv (I := fun t => (t.cell c).data = (s.cell c).data ∧ t.deref = s.deref) ?_ ⟨rfl, rfl⟩
  rintro k u v rfl huv ⟨h1, h2⟩
  rw [← h1, ← h2]
  cases huv with
  | hash hp h =>
    rw [Store.cell_setCell]
    split <;> rename_i he
    · simp [he]
    · simp
  | clean =>
    rw [Store.cell_setCell]
    split <;> rename_i he
    · simp [he]
    · simp

theorem leafBalance_calcTreeHash (s : St) (dump : Dump) (d : DataPtr) :
    (exec Γ (.calcTreeHash dump) s).2.leafBalance d = s.leafBalance d := by
  have hleaf : (exec Γ (.calcTreeHash dump) s).2.store.leaf d.parent = s.store.leaf d.parent := by
    unfold Store.leaf
    cases dump
    · obtain ⟨h1, h2⟩ := (Store.calcTreeHash_changes treeLevels [] (s.store, s.dbToSaveZ)).leaf_hash d.parent
      have he : (exec Γ (.calcTreeHash .saveZ) s).2.store = (Store.calcTreeHash treeLevels [] (s.store, s.dbToSaveZ)).1 := rfl
      rw [he, h1, h2]
    · obtain ⟨h1, h2⟩ := (Store.calcTreeHash_changes treeLevels [] (s.store, s.dbDump)).leaf_hash d.parent
      have he : (exec Γ (.calcTreeHash .dbDump) s).2.store = (Store.calcTreeHash treeLevels [] (s.store, s.dbDump)).1 := rfl
      rw [he, h1, h2]
  unfold St.leafBalance
  rw [hleaf]

/-! ## The exits -/

theorem run_deletePending (ds : List DataPtr) (s : St) :
    Prog.run (exec Γ) (deletePending ds) s = (.ok (), (runEff Γ (deletePending ds) s).2) := by
  induction ds generalizing s with
  | nil => rfl
  | cons d ds ih => exact ih _

/-- The end of a transaction that succeeds: the charge, and what was spent of the value. -/
def succeed (b : BParams) (x : Reserved) (gas : Int) : Eff Unit := do
  chargeGas b x.uu.ptr x.a.priority gas
  let spentValue ← sub64 x.a.value (← value)
  assign x.uu.ptr (.addBalance (-spentValue))
  calcTreeHash .dbDump
  mergeDump

theorem run_settle (x : Reserved) (s : St) :
    runEff Γ (settle b x.uu.ptr x.a x.gasLimitGas) s =
      if (hashed Γ b s).gasUsed > x.gasLimitGas then
        runEff Γ (fail b x.uu.ptr x.a.priority "gas exceeds limit" x.gasLimitGas) (hashed Γ b s)
      else runEff Γ (succeed b x (hashed Γ b s).gasUsed) (hashed Γ b s) := by
  obtain ⟨t, ht⟩ : ∃ t, t = (runEff Γ (deletePending s.deletedGranules) s).2 := ⟨_, rfl⟩
  have hpending : Prog.run (exec Γ) pending s = (.ok s.deletedGranules, s) := rfl
  have hdelete := run_deletePending (Γ := Γ) s.deletedGranules s
  rw [← ht] at hdelete
  have hrest (k : Int → Eff Unit) : Prog.run (exec Γ) (calcTreeHash .dbDump >>= fun _ => dumpSize >>= fun n =>
      addGas (n * b.fees.gasPerByte) >>= fun _ => gasUsed >>= k) t = Prog.run (exec Γ) (k (hashed Γ b s).gasUsed) (hashed Γ b s) := by
    unfold hashed
    rw [← ht]
    rfl
  unfold runEff settle
  rw [run_bind_ok _ hpending, run_bind_ok _ hdelete, hrest]
  split <;> rfl

/-- What a change of a balance leaves in the leaf. -/
theorem leafBalance_pay (s : St) (d : DataPtr) (a : Int) :
    (s.pay d a).leafBalance d = if s.Live d then wrap64 (s.leafBalance d + a) else s.leafBalance d := by
  split <;> rename_i h
  · exact leafBalance_pay_live h a
  · exact leafBalance_pay_other h a

theorem run_sub64 (n m : Int) (s : St) :
    ∃ o, Prog.run (exec Γ) (sub64 n m) s = (.ok (wrap64 (n - m)), { s with overflow := o }) := by
  by_cases h : InI64 (n - m)
  · refine ⟨s.overflow, ?_⟩
    unfold sub64 doIf
    rw [if_neg (not_not.2 h)]
    rfl
  · refine ⟨true, ?_⟩
    unfold sub64 doIf
    rw [if_pos h]
    rfl

/-- A transaction that succeeds pays for its gas, and for the value that it spent. -/
theorem run_succeed {x : Reserved} (hx : Priced x b) {gas : Int} (hgas : 0 ≤ gas) (s : St) :
    ∃ u, runEff Γ (succeed b x gas) s = (.ok (), u) ∧ u.nodeRewards = wrap64 (s.nodeRewards + x.tokens b gas) ∧
      u.leafBalance x.uu.ptr = if s.Live x.uu.ptr
        then wrap64 (wrap64 (s.leafBalance x.uu.ptr + -x.tokens b gas) + -wrap64 (x.a.value - s.value))
        else s.leafBalance x.uu.ptr := by
  obtain ⟨s1, hs1⟩ : ∃ s1, s1 = (s.pay x.uu.ptr (-x.tokens b gas)).earn (x.tokens b gas) := ⟨_, rfl⟩
  have hcharge := run_chargeGas (Γ := Γ) hx x.uu.ptr gas s
  rw [if_neg (Int.not_lt.2 hgas), ← hs1] at hcharge
  have hvalue : Prog.run (exec Γ) value s1 = (.ok s.value, s1) := by
    rw [hs1]
    rfl
  obtain ⟨o, hsub⟩ := run_sub64 (Γ := Γ) x.a.value s.value s1
  obtain ⟨s2, hs2⟩ : ∃ s2, s2 = { s1 with overflow := o } := ⟨_, rfl⟩
  rw [← hs2] at hsub
  have hassign := run_assign_addBalance (Γ := Γ) x.uu.ptr (-wrap64 (x.a.value - s.value)) s2
  refine ⟨(exec Γ .mergeDump (exec Γ (.calcTreeHash .dbDump) (s2.pay x.uu.ptr (-wrap64 (x.a.value - s.value)))).2).2, ?_, ?_, ?_⟩
  · unfold runEff at hcharge hassign ⊢
    unfold succeed
    rw [run_bind_ok _ hcharge, run_bind_ok _ hvalue, run_bind_ok _ hsub, run_bind_ok _ hassign]
    rfl
  · rw [hs2, hs1]
    rfl
  · have hmerge : (exec Γ .mergeDump (exec Γ (.calcTreeHash .dbDump) (s2.pay x.uu.ptr
        (-wrap64 (x.a.value - s.value)))).2).2.leafBalance x.uu.ptr =
          (exec Γ (.calcTreeHash .dbDump) (s2.pay x.uu.ptr (-wrap64 (x.a.value - s.value)))).2.leafBalance x.uu.ptr := rfl
    have hlive : s2.Live x.uu.ptr ↔ s.Live x.uu.ptr := by
      rw [hs2, hs1]
      exact live_pay s x.uu.ptr _
    have hbal : s2.leafBalance x.uu.ptr = (s.pay x.uu.ptr (-x.tokens b gas)).leafBalance x.uu.ptr := by
      rw [hs2, hs1]
      rfl
    rw [hmerge, leafBalance_calcTreeHash, leafBalance_pay, hbal, leafBalance_pay]
    by_cases h : s.Live x.uu.ptr
    · rw [if_pos (hlive.2 h), if_pos h, if_pos h]
    · rw [if_neg (mt hlive.1 h), if_neg h, if_neg h]

theorem nodeRewards_undone (gas : Int) (s : St) : (undone Γ b gas s).st.nodeRewards = s.nodeRewards := rfl

/-- What an exit leaves behind: whether the transaction succeeded, the rewards, and the sender's leaf. -/
structure Exited (b : BParams) (x : Reserved) (z : Settlement) (e : Except Stop Unit) (u : St) : Prop where
  ok : e = .ok () ↔ z.succeeded = true ∧ z.Charges
  rewards : u.nodeRewards = if z.Charges then wrap64 (z.st.nodeRewards + x.tokens b z.gas) else z.st.nodeRewards
  leaf : u.leafBalance x.uu.ptr = if z.Charges ∧ z.st.Live x.uu.ptr
    then if z.succeeded = true
      then wrap64 (wrap64 (z.st.leafBalance x.uu.ptr + -x.tokens b z.gas) + -wrap64 (x.a.value - z.st.value))
      else wrap64 (z.st.leafBalance x.uu.ptr + -x.tokens b z.gas)
    else z.st.leafBalance x.uu.ptr

theorem settled_fail {x : Reserved} (hx : Priced x b) (msg : String) (gas : Int) (s : St) :
    Exited b x (undone Γ b gas s) (runEff Γ (fail b x.uu.ptr x.a.priority msg gas) s).1
      (runEff Γ (fail (α := Unit) b x.uu.ptr x.a.priority msg gas) s).2 := by
  obtain ⟨e, hrun⟩ := run_fail (Γ := Γ) hx msg gas s
  rw [hrun]
  have hfailed : (undone Γ b gas s).succeeded = false := rfl
  refine ⟨?_, ?_, ?_⟩
  · rw [hfailed]
    constructor
    · intro h
      cases h
    · rintro ⟨h, -⟩
      cases h
  · unfold Reserved.chargedState
    split <;> rfl
  · rw [hfailed, if_neg Bool.false_ne_true]
    unfold Reserved.chargedState
    by_cases h : (undone Γ b gas s).Charges
    · rw [if_pos h]
      have hearn : (((undone Γ b gas s).st.pay x.uu.ptr (-x.tokens b (undone Γ b gas s).gas)).earn
          (x.tokens b (undone Γ b gas s).gas)).leafBalance x.uu.ptr =
            ((undone Γ b gas s).st.pay x.uu.ptr (-x.tokens b (undone Γ b gas s).gas)).leafBalance x.uu.ptr := rfl
      rw [hearn, leafBalance_pay]
      simp [h]
    · rw [if_neg h, if_neg]
      rintro ⟨hc, -⟩
      exact h hc

theorem nodeRewards_hashed (s : St) : (hashed Γ b s).nodeRewards = s.nodeRewards := by
  have hdelete (ds : List DataPtr) (s : St) : (runEff Γ (deletePending ds) s).2.nodeRewards = s.nodeRewards := by
    induction ds generalizing s with
    | nil => rfl
    | cons d ds ih => exact ih _
  exact hdelete _ s

theorem settled_succeed {x : Reserved} (hx : Priced x b) (s : St) :
    Exited b x { succeeded := true, raised := false, gas := s.gasUsed, st := s } (runEff Γ (succeed b x s.gasUsed) s).1
      (runEff Γ (succeed b x s.gasUsed) s).2 := by
  by_cases hg : 0 ≤ s.gasUsed
  · have hc : Settlement.Charges { succeeded := true, raised := false, gas := s.gasUsed, st := s } := ⟨rfl, hg⟩
    obtain ⟨u, hrun, hrewards, hleaf⟩ := run_succeed (Γ := Γ) hx hg s
    rw [hrun]
    refine ⟨?_, ?_, ?_⟩
    · exact ⟨fun _ => ⟨rfl, hc⟩, fun _ => rfl⟩
    · rw [if_pos hc]
      exact hrewards
    · rw [hleaf]
      simp [hc]
  · have hc : ¬ Settlement.Charges { succeeded := true, raised := false, gas := s.gasUsed, st := s } := fun h => hg h.2
    have hcharge := run_chargeGas (Γ := Γ) hx x.uu.ptr s.gasUsed s
    rw [if_pos (Int.not_le.1 hg)] at hcharge
    have hrun : runEff Γ (succeed b x s.gasUsed) s = (.error (.err "gasUsed must be >= 0"), s) := by
      unfold runEff at hcharge ⊢
      unfold succeed
      rw [run_bind_error _ hcharge]
    rw [hrun]
    refine ⟨?_, ?_, ?_⟩
    · constructor
      · intro h
        cases h
      · rintro ⟨-, h⟩
        exact absurd h hc
    · rw [if_neg hc]
    · rw [if_neg]
      rintro ⟨h, -⟩
      exact hc h

theorem run_afterCommands_none (x : Reserved) (s : St) :
    runEff Γ (afterCommands b x.uu.ptr x.a x.gasLimitGas none) s =
      runEff Γ (if s.value < 0 then fail b x.uu.ptr x.a.priority "value exceeds limit" s.gasUsed
        else if s.gasUsed > x.gasLimitGas then fail b x.uu.ptr x.a.priority "gas exceeds limit" x.gasLimitGas
        else settle b x.uu.ptr x.a x.gasLimitGas) s := rfl

/-- What follows the commands is the settlement on the exit that is taken. -/
theorem run_afterCommands {x : Reserved} (hx : Priced x b) (r : Option String) (s : St) :
    Exited b x (settlement Γ b x.gasLimitGas r s) (runEff Γ (afterCommands b x.uu.ptr x.a x.gasLimitGas r) s).1
        (runEff Γ (afterCommands b x.uu.ptr x.a x.gasLimitGas r) s).2 ∧
      (settlement Γ b x.gasLimitGas r s).st.nodeRewards = s.nodeRewards := by
  unfold settlement
  cases r with
  | some msg =>
    rw [if_pos (.inl rfl)]
    exact ⟨settled_fail hx msg s.gasUsed s, rfl⟩
  | none =>
    rw [run_afterCommands_none]
    by_cases hv : s.value < 0
    · rw [if_pos (.inr hv), if_pos hv]
      exact ⟨settled_fail hx _ s.gasUsed s, rfl⟩
    · have hnone : ¬ ((none : Option String).isSome = true ∨ s.value < 0) := by
        rintro (h | h)
        · cases h
        · exact hv h
      rw [if_neg hnone, if_neg hv]
      by_cases hg : s.gasUsed > x.gasLimitGas
      · rw [if_pos hg, if_pos hg]
        exact ⟨settled_fail hx _ x.gasLimitGas s, rfl⟩
      · rw [if_neg hg, if_neg hg, run_settle]
        by_cases hh : (hashed Γ b s).gasUsed > x.gasLimitGas
        · rw [if_pos hh, if_pos hh]
          exact ⟨settled_fail hx _ x.gasLimitGas _, (nodeRewards_undone x.gasLimitGas _).trans (nodeRewards_hashed s)⟩
        · rw [if_neg hh, if_neg hh]
          exact ⟨settled_succeed hx _, nodeRewards_hashed s⟩

/-! ## The bound -/

/-- The arithmetic of an exit is exact: one condition for each of its operations. -/
theorem arithmetic_iff (x : Reserved) (b : BParams) (z : Settlement) :
    (∀ n ∈ x.arithmetic b z, InI64 n) ↔
      (InI64 (x.a.gasLimit + x.a.value) ∧ InI64 (b.fees.gasPerToken * (100 - x.a.priority))) ∧
      (z.Charges → (InI64 (z.gas + x.rate b) ∧ InI64 (z.gas + x.rate b - 1)) ∧ InI64 (z.st.nodeRewards + x.tokens b z.gas) ∧
        InI64 (balanceOf (z.st.store.deref x.uu.ptr) - x.tokens b z.gas)) ∧
      (z.Charges → z.succeeded = true → InI64 (x.a.value - z.st.value) ∧
        InI64 (balanceOf (z.st.store.deref x.uu.ptr) - x.tokens b z.gas - (x.a.value - z.st.value))) := by
  constructor
  · intro h
    refine ⟨⟨h _ (.inl rfl), h _ (.inr (.inl rfl))⟩, ?_, ?_⟩
    · intro hc
      refine ⟨⟨h _ (.inr (.inr (.inl ⟨hc, .inl rfl⟩))), h _ (.inr (.inr (.inl ⟨hc, .inr (.inl rfl)⟩)))⟩, ?_, ?_⟩
      · exact h _ (.inr (.inr (.inl ⟨hc, .inr (.inr (.inr rfl))⟩)))
      · exact h _ (.inr (.inr (.inl ⟨hc, .inr (.inr (.inl rfl))⟩)))
    · intro hc hs
      exact ⟨h _ (.inr (.inr (.inr ⟨⟨hc, hs⟩, .inl rfl⟩))), h _ (.inr (.inr (.inr ⟨⟨hc, hs⟩, .inr rfl⟩)))⟩
  · rintro ⟨⟨h1, h2⟩, hcharge, hspent⟩ n (rfl | rfl | ⟨hc, rfl | rfl | rfl | rfl⟩ | ⟨⟨hc, hs⟩, rfl | rfl⟩)
    · exact h1
    · exact h2
    · exact (hcharge hc).1.1
    · exact (hcharge hc).1.2
    · exact (hcharge hc).2.2
    · exact (hcharge hc).2.1
    · exact (hspent hc hs).1
    · exact (hspent hc hs).2

/-- The rewards tell what was charged. -/
theorem wrap64_earned {r n : Int} (h : InI64 n) : wrap64 (wrap64 (r + n) - r) = n := by
  have hmod : wrap64 (wrap64 (r + n) - r) = wrap64 n := by
    unfold wrap64
    rw [Int.bmod_sub_bmod]
    congr 1
    omega
  rw [hmod, wrap64_eq h]

theorem inI64_zero : InI64 0 := by decide

/-- The bound on an exit, in terms of the leaf before the charge. -/
theorem Exited.bound_iff {x : Reserved} {z : Settlement} {e : Except Stop Unit} {r : Option String} {s u : St} (hx : Priced x b)
    (h : Exited b x z e u) (hz : z = settlement Γ b x.gasLimitGas r s) (hst : z.st.nodeRewards = s.nodeRewards) :
    FeeBound Γ b x r s e u ↔ Affordable b x z := by
  have hbounds := tokens_bounds hx z.gas
  have hlimit := hx.tokens
  have hspent : wrap64 (u.nodeRewards - s.nodeRewards) = if z.Charges then x.tokens b z.gas else 0 := by
    have hn : InI64 (x.tokens b z.gas) := by
      unfold InI64
      omega
    rw [h.rewards, ← hst]
    split
    · exact wrap64_earned hn
    · rw [Int.sub_self]
      exact wrap64_eq inI64_zero
  -- with exact arithmetic the leaf loses the cost
  have hleft (hexact : ∀ n ∈ x.arithmetic b z, InI64 n) : u.leafBalance x.uu.ptr = z.st.leafBalance x.uu.ptr - x.cost b z := by
    obtain ⟨-, hcharge, hvalue⟩ := (arithmetic_iff x b z).1 hexact
    rw [h.leaf, Reserved.cost]
    by_cases hc : z.Charges ∧ z.st.Live x.uu.ptr
    · rw [if_pos hc, if_pos hc]
      have h1 := (hcharge hc.1).2.2
      rw [← leafBalance_of_live hc.2] at h1
      have e1 : wrap64 (z.st.leafBalance x.uu.ptr + -x.tokens b z.gas) = z.st.leafBalance x.uu.ptr - x.tokens b z.gas :=
        wrap64_eq h1
      by_cases hs : z.succeeded = true
      · obtain ⟨h2, h3⟩ := hvalue hc.1 hs
        rw [← leafBalance_of_live hc.2] at h3
        rw [if_pos hs, if_pos hs, e1, wrap64_eq h2, ← Int.sub_eq_add_neg, wrap64_eq h3]
        omega
      · rw [if_neg hs, if_neg hs, e1]
        omega
    · rw [if_neg hc, if_neg hc]
      omega
  constructor
  · rintro ⟨hcharged, hsuccess, hfailure, hnonneg, hexact⟩
    rw [← hz] at hexact
    rw [hspent] at hcharged
    rw [hleft hexact] at hsuccess hfailure hnonneg
    obtain ⟨hreserve, hcharge, hvalue⟩ := (arithmetic_iff x b z).1 hexact
    refine ⟨hreserve, ?_, ?_, hvalue, ?_, ?_⟩
    · intro hc
      rw [if_pos hc] at hcharged
      exact (tokens_le_iff hx hc.2 (hcharge hc).1.1).1 hcharged
    · intro hc
      exact ⟨(hcharge hc).1.1, (hcharge hc).2⟩
    · omega
    · by_cases hok : e = .ok ()
      · have := hsuccess hok
        obtain ⟨hs, hc⟩ := h.ok.1 hok
        rw [if_pos ⟨hc, hs⟩]
        omega
      · have := hfailure hok
        rw [if_neg fun hcs => hok (h.ok.2 ⟨hcs.2, hcs.1⟩)]
        omega
  · rintro ⟨hreserve, hlim, hcharge, hvalue, hfunds, hkept⟩
    have hrate := hx.rate
    have hexact : ∀ n ∈ x.arithmetic b z, InI64 n := by
      refine (arithmetic_iff x b z).2 ⟨hreserve, ?_, hvalue⟩
      intro hc
      refine ⟨⟨(hcharge hc).1, ?_⟩, (hcharge hc).2⟩
      have := (hcharge hc).1
      have := hc.2
      unfold InI64 at *
      omega
    refine ⟨?_, ?_, ?_, ?_, by rwa [← hz]⟩
    · rw [hspent]
      split <;> rename_i hc
      · exact (tokens_le_iff hx hc.2 (hcharge hc).1).2 (hlim hc)
      · exact hlimit
    · intro hok
      obtain ⟨hs, hc⟩ := h.ok.1 hok
      rw [if_pos ⟨hc, hs⟩] at hkept
      rw [hleft hexact]
      omega
    · intro hok
      rw [if_neg fun hcs => hok (h.ok.2 ⟨hcs.2, hcs.1⟩)] at hkept
      rw [hleft hexact]
      omega
    · rw [hleft hexact]
      omega

/-! ## The transaction -/

/-- A transaction is its reserve check, its commands, and its settlement. -/
theorem transaction_eq_reserve (senderAddress : String) (tx : TX) :
    transaction Γ b senderAddress tx = reserve Γ b senderAddress tx >>= spend Γ b := by
  unfold reserve
  simp only [Prog.bind_bind]
  rfl

theorem run_raiseIf_ok {c : Prop} [Decidable c] {msg : String} {s t : St} (h : Prog.run (exec Γ) (raiseIf c msg) s = (.ok (), t)) :
    ¬ c ∧ t = s := by
  unfold raiseIf commonError at h
  split at h <;> rename_i hc
  · cases h
  · cases h
    exact ⟨hc, rfl⟩

/-- Past its reserve check a transaction has a price for its gas, and the sender had the reserve. -/
theorem priced_of_reserve {senderAddress : String} {tx : TX} {x : Reserved} {s t : St}
    (h : runEff Γ (reserve Γ b senderAddress tx) s = (.ok x, t)) : Priced x b := by
  unfold runEff reserve at h
  obtain ⟨st, t1, -, h⟩ := run_bind_eq_ok _ h
  obtain ⟨_, t2, -, h⟩ := run_bind_eq_ok _ h
  obtain ⟨st, t3, -, h⟩ := run_bind_eq_ok _ h
  obtain ⟨_, t4, -, h⟩ := run_bind_eq_ok _ h
  obtain ⟨_, t5, -, h⟩ := run_bind_eq_ok _ h
  obtain ⟨_, t6, -, h⟩ := run_bind_eq_ok _ h
  obtain ⟨jtx, t7, -, h⟩ := run_bind_eq_ok _ h
  obtain ⟨a, t8, -, h⟩ := run_bind_eq_ok _ h
  obtain ⟨_, t9, -, h⟩ := run_bind_eq_ok _ h
  obtain ⟨g, t10, hg, h⟩ := run_bind_eq_ok _ h
  obtain ⟨_, t11, -, h⟩ := run_bind_eq_ok _ h
  obtain ⟨uu, t12, -, h⟩ := run_bind_eq_ok _ h
  obtain ⟨_, t13, -, h⟩ := run_bind_eq_ok _ h
  obtain ⟨uu, t14, -, h⟩ := run_bind_eq_ok _ h
  obtain ⟨sum, t15, -, h⟩ := run_bind_eq_ok _ h
  obtain ⟨_, t16, -, h⟩ := run_bind_eq_ok _ h
  obtain ⟨_, t17, -, h⟩ := run_bind_eq_ok _ h
  have hx := congrArg Prod.fst h
  injection hx with hx
  subst hx
  have hg := congrArg Prod.fst hg
  unfold lift at hg
  rw [run_ofExcept] at hg
  obtain ⟨hp, hn, rate, hrate, rfl, hmax⟩ := token2Gas_ok hg
  obtain ⟨hbase, rfl, hpos⟩ := gasPerToken_ok hrate
  exact ⟨hp, hbase, hpos, hn, rfl, hmax⟩

/-! ## A transaction without gas -/

/-- The limit of a transaction and what it is charged, if it gets past its reserve check. -/
def charge (Γ : Ctx) (b : BParams) (senderAddress : String) (tx : TX) (s : St) : Option (Int × Int) :=
  match runEff Γ (reserve Γ b senderAddress tx) s with
  | (.ok x, t) =>
    match runEff Γ (catchErr (executeTxCommands Γ b x.t x.jtx)) t with
    | (.ok r, u) =>
      some (x.a.gasLimit, wrap64 ((runEff Γ (afterCommands b x.uu.ptr x.a x.gasLimitGas r) u).2.nodeRewards - u.nodeRewards))
    | (.error _, _) => none
  | (.error _, _) => none

theorem of_charge {senderAddress : String} {tx : TX} {s : St} {l n : Int} (h : charge Γ b senderAddress tx s = some (l, n)) :
    ∃ x t r u, runEff Γ (reserve Γ b senderAddress tx) s = (.ok x, t) ∧
      runEff Γ (catchErr (executeTxCommands Γ b x.t x.jtx)) t = (.ok r, u) ∧ x.a.gasLimit = l ∧
      wrap64 ((runEff Γ (afterCommands b x.uu.ptr x.a x.gasLimitGas r) u).2.nodeRewards - u.nodeRewards) = n := by
  unfold charge at h
  split at h
  · rename_i x t hx
    split at h
    · rename_i r u hr
      cases h
      exact ⟨x, t, r, u, hx, hr, rfl, rfl⟩
    · cases h
  · cases h

namespace Sample

/-- The first user sends a transaction without commands, with nothing for gas. -/
def free : Ctx := ctx [("free", body "a" 0 0 0 [])] fun _ => none

/-- The transaction, signed by the first user. -/
def freeTx : TX := { txBody := "free", pkEdBin := key 'k', sigEdBin := sign 'k' }

theorem charge_free : charge free params "a" freeTx (genesis free file) = some (0, 1) := by decide +kernel

end Sample

open Sample

end Grain
