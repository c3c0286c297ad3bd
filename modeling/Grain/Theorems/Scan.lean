import Grain.Scan
import Grain.TrExec

/-!
# A scan in pages

However a scan is cut into pages, and whatever is written between them, the keys come in order and none twice, each was expired in
the page that has it, and a key that is there and expired in every page is not missed (`pages_exact`).
-/

namespace Grain

open Eff

namespace Scan

variable {blsPkOk : String → Bool}

/-- The time that a page goes by. -/
def Page.now (p : Page) : Int := if p.req.now > 0 then p.req.now else p.time - 10

/-- The page's database has an expired leaf under the key. -/
def Page.Finds (blsPkOk : String → Bool) (p : Page) (k : String) : Prop :=
  k.length = 32 ∧ ∃ val, p.db[k]? = some val ∧ expiredGranule blsPkOk p.now val = true

theorem not_lt_empty (k : String) : compare k "" ≠ .lt := by
  intro h
  simp only [compare, String.compare, compareOfLessAndEq] at h
  split at h
  · rename_i hlt
    rw [String.lt_iff_toList_lt] at hlt
    exact List.not_lt_nil _ hlt
  · split at h <;> cases h

theorem compare_swap (a b : String) : compare a b = (compare b a).swap := Std.OrientedCmp.eq_swap

theorem isLE_of_not_lt {a b : String} (h : compare a b ≠ .lt) : (compare b a).isLE = true := by
  rw [compare_swap]
  cases hc : compare a b with
  | lt => exact absurd hc h
  | eq => rfl
  | gt => rfl

theorem not_lt_of_isLE {a b : String} (h : (compare b a).isLE = true) : compare a b ≠ .lt := by
  intro hlt
  rw [compare_swap, hlt] at h
  cases h

/-- The entries from a key on. -/
theorem mem_seek {db : StdMap String Buffer} {start k : String} {val : Buffer} :
    (k, val) ∈ seek db start ↔ db[k]? = some val ∧ compare k start ≠ .lt := by
  unfold seek
  split
  · rename_i h
    subst h
    simp [not_lt_empty, Std.ExtTreeMap.mem_toList_iff_getElem?_eq_some]
  · simp [Std.ExtTreeMap.mem_toList_iff_getElem?_eq_some]

/-- They come in order. -/
theorem seek_ascends (db : StdMap String Buffer) (start : String) : (seek db start).Pairwise fun a b => compare a.1 b.1 = .lt := by
  unfold seek
  split
  · exact Std.ExtTreeMap.ordered_keys_toList
  · exact Std.ExtTreeMap.ordered_keys_toList.filter _

/-- The keys of some entries that are reported. -/
def reported (blsPkOk : String → Bool) (now : Int) (es : List (String × Buffer)) : List String :=
  (es.filter fun e => decide (e.1.length = 32) && expiredGranule blsPkOk now e.2).map (·.1)

/-- The loop reports of the entries up to where it stops. -/
theorem scanLoop_spec (now limit : Int) (elapsed : Nat → Int) (i : Nat) (es : List (String × Buffer)) (rsp : ScanRSP) :
    ∃ seen rest, es = seen ++ rest ∧ (scanLoop blsPkOk now limit elapsed i es rsp).dbids = rsp.dbids ++ reported blsPkOk now seen ∧
      ((rest = [] ∧ (scanLoop blsPkOk now limit elapsed i es rsp).done = true) ∨
        ∃ e rest', rest = e :: rest' ∧ (scanLoop blsPkOk now limit elapsed i es rsp).done = rsp.done ∧
          (scanLoop blsPkOk now limit elapsed i es rsp).nextFrom = e.1) := by
  induction es generalizing i rsp with
  | nil => exact ⟨[], [], rfl, by simp [scanLoop, reported], .inl ⟨rfl, rfl⟩⟩
  | cons e es ih =>
    by_cases ht : elapsed i > limit
    · exact ⟨[], e :: es, rfl, by simp [scanLoop, ht, reported], .inr ⟨e, es, rfl, by simp [scanLoop, ht], by simp [scanLoop, ht]⟩⟩
    · obtain ⟨seen, rest, h1, h2, h3⟩ := ih (i + 1) (look blsPkOk now e rsp)
      have hrun : scanLoop blsPkOk now limit elapsed i (e :: es) rsp =
          scanLoop blsPkOk now limit elapsed (i + 1) es (look blsPkOk now e rsp) := by
        simp only [scanLoop, if_neg ht]
      have hdone : (look blsPkOk now e rsp).done = rsp.done := by
        unfold look
        split <;> rfl
      have hids : (look blsPkOk now e rsp).dbids = rsp.dbids ++ reported blsPkOk now [e] := by
        unfold look reported
        by_cases hl : e.1.length = 32
        · by_cases hx : expiredGranule blsPkOk now e.2 = true
          · simp [hl, hx]
          · simp [hl, hx]
        · simp [hl]
      rw [hrun]
      refine ⟨e :: seen, rest, by rw [h1]; rfl, ?_, ?_⟩
      · rw [h2, hids, List.append_assoc]
        congr 1
        rw [reported, reported, reported, ← List.map_append, ← List.filter_append]
        rfl
      · rw [hdone] at h3
        exact h3

/-- A page has the expired leaves from its key on, up to the one to go on from. -/
theorem rsp_spec (p : Page) (start : String) :
    ∃ seen rest, seek p.db start = seen ++ rest ∧ (p.rsp blsPkOk start).dbids = reported blsPkOk p.now seen ∧
      ((rest = [] ∧ (p.rsp blsPkOk start).done = true) ∨
        ∃ e rest', rest = e :: rest' ∧ (p.rsp blsPkOk start).done = false ∧ (p.rsp blsPkOk start).nextFrom = e.1) :=
  scanLoop_spec p.now _ p.elapsed 0 (seek p.db start) {}

theorem mem_reported {now : Int} {es : List (String × Buffer)} {k : String} :
    k ∈ reported blsPkOk now es ↔ k.length = 32 ∧ ∃ val, (k, val) ∈ es ∧ expiredGranule blsPkOk now val = true := by
  unfold reported
  constructor
  · intro h
    obtain ⟨⟨x, val⟩, h1, rfl⟩ := List.mem_map.1 h
    obtain ⟨h2, h3⟩ := List.mem_filter.1 h1
    simp only [Bool.and_eq_true, decide_eq_true_eq] at h3
    exact ⟨h3.1, val, h2, h3.2⟩
  · rintro ⟨h1, val, h2, h3⟩
    exact List.mem_map.2 ⟨(k, val), List.mem_filter.2 ⟨h2, by simp [h1, h3]⟩, rfl⟩

theorem reported_ascends {now : Int} {es : List (String × Buffer)} (h : es.Pairwise fun a b => compare a.1 b.1 = .lt) :
    (reported blsPkOk now es).Pairwise fun a b => compare a b = .lt :=
  List.pairwise_map.2 (h.filter _)

/-- The answers to the pages from a key on: the keys are in order from there, each is found by the page that has it, and once the
scan is done, a key that every page would find is there. -/
theorem pages_from (start : String) (ps : List Page) :
    ((pages blsPkOk start ps).flatMap (·.dbids)).Pairwise (fun a b => compare a b = .lt) ∧
      (∀ k ∈ (pages blsPkOk start ps).flatMap (·.dbids), compare k start ≠ .lt ∧ ∃ p ∈ ps, p.Finds blsPkOk k) ∧
      ((∃ rsp ∈ pages blsPkOk start ps, rsp.done = true) → ∀ k, compare k start ≠ .lt → (∀ p ∈ ps, p.Finds blsPkOk k) →
        k ∈ (pages blsPkOk start ps).flatMap (·.dbids)) := by
  induction ps generalizing start with
  | nil => simp [pages]
  | cons p ps ih =>
    obtain ⟨seen, rest, hsplit, hids, hrest⟩ := @rsp_spec blsPkOk p start
    have hasc := seek_ascends p.db start
    have hseen : ∀ {k val}, (k, val) ∈ seen → p.db[k]? = some val ∧ compare k start ≠ .lt := by
      intro k val hk
      exact mem_seek.1 (by rw [hsplit]; exact List.mem_append_left _ hk)
    have hfirst : (p.rsp blsPkOk start).dbids.Pairwise fun a b => compare a b = .lt := by
      rw [hids]
      rw [hsplit] at hasc
      exact reported_ascends (List.pairwise_append.1 hasc).1
    have hfound : ∀ k ∈ (p.rsp blsPkOk start).dbids, compare k start ≠ .lt ∧ p.Finds blsPkOk k := by
      intro k hk
      rw [hids] at hk
      obtain ⟨h1, val, h2, h3⟩ := mem_reported.1 hk
      exact ⟨(hseen h2).2, h1, val, (hseen h2).1, h3⟩
    rcases hrest with ⟨rfl, hdone⟩ | ⟨⟨x, w⟩, rest', rfl, hdone, hnext⟩
    · -- the last page
      have hpages : pages blsPkOk start (p :: ps) = [p.rsp blsPkOk start] := by simp [pages, hdone]
      rw [hpages]
      simp only [List.flatMap_cons, List.flatMap_nil, List.append_nil]
      refine ⟨hfirst, fun k hk => ⟨(hfound k hk).1, p, List.mem_cons_self .., (hfound k hk).2⟩, fun _ k hk hall => ?_⟩
      obtain ⟨h1, val, h2, h3⟩ := hall p (List.mem_cons_self ..)
      rw [hids]
      refine mem_reported.2 ⟨h1, val, ?_, h3⟩
      have := mem_seek.2 ⟨h2, hk⟩
      rwa [hsplit, List.append_nil] at this
    · have hpages : pages blsPkOk start (p :: ps) = p.rsp blsPkOk start :: pages blsPkOk x ps := by simp [pages, hdone, hnext]
      obtain ⟨g1, g2, g3⟩ := ih x
      have hx : compare x start ≠ .lt := (mem_seek.1 (by rw [hsplit]; exact List.mem_append_right _ (List.mem_cons_self ..))).2
      have hbefore : ∀ {k val}, (k, val) ∈ seen → compare k x = .lt := by
        intro k val hk
        rw [hsplit] at hasc
        exact (List.pairwise_append.1 hasc).2.2 (k, val) hk (x, w) (List.mem_cons_self ..)
      rw [hpages]
      simp only [List.flatMap_cons]
      refine ⟨?_, fun k hk => ?_, ?_⟩
      · refine List.pairwise_append.2 ⟨hfirst, g1, fun a ha b hb => ?_⟩
        rw [hids] at ha
        obtain ⟨-, val, ha', -⟩ := mem_reported.1 ha
        exact Std.TransCmp.lt_of_lt_of_isLE (hbefore ha') (isLE_of_not_lt (g2 b hb).1)
      · rcases List.mem_append.1 hk with hk | hk
        · exact ⟨(hfound k hk).1, p, List.mem_cons_self .., (hfound k hk).2⟩
        · obtain ⟨h1, q, hq, h2⟩ := g2 k hk
          exact ⟨not_lt_of_isLE (Std.TransCmp.isLE_trans (isLE_of_not_lt hx) (isLE_of_not_lt h1)), q, List.mem_cons_of_mem _ hq, h2⟩
      · rintro ⟨rsp, hrsp, hd⟩ k hk hall
        have hd' : ∃ rsp ∈ pages blsPkOk x ps, rsp.done = true := by
          rcases List.mem_cons.1 hrsp with rfl | hrsp
          · rw [hdone] at hd
            cases hd
          · exact ⟨rsp, hrsp, hd⟩
        obtain ⟨h1, val, h2, h3⟩ := hall p (List.mem_cons_self ..)
        by_cases hkx : compare k x = .lt
        · have hmem : (k, val) ∈ seen ++ (x, w) :: rest' := hsplit ▸ mem_seek.2 ⟨h2, hk⟩
          rcases List.mem_append.1 hmem with hmem | hmem
          · exact List.mem_append_left _ (by rw [hids]; exact mem_reported.2 ⟨h1, val, hmem, h3⟩)
          · -- the entries that remain are not before the key to go on from
            rw [hsplit] at hasc
            rcases List.mem_cons.1 hmem with he | hmem
            · cases he
              exact absurd hkx (by simp)
            · have hlt := List.rel_of_pairwise_cons (List.pairwise_append.1 hasc).2.1 hmem
              exact absurd hkx (not_lt_of_isLE (by simp only at hlt; rw [hlt]; rfl))
        · exact List.mem_append_right _ (g3 hd' k hkx fun q hq => hall q (List.mem_cons_of_mem _ hq))

/-- However a scan is cut into pages, and whatever is written to the database between them: the keys come in order, so none comes
twice; each has an expired leaf in some page's database; and once the scan is done, no key is missed that has one in every page's.
-/
theorem pages_exact (blsPkOk : String → Bool) (ps : List Page) :
    ((pages blsPkOk "" ps).flatMap (·.dbids)).Pairwise (fun a b => compare a b = .lt) ∧
      (∀ k ∈ (pages blsPkOk "" ps).flatMap (·.dbids), ∃ p ∈ ps, p.Finds blsPkOk k) ∧
      ((∃ rsp ∈ pages blsPkOk "" ps, rsp.done = true) → ∀ k, (∀ p ∈ ps, p.Finds blsPkOk k) →
        k ∈ (pages blsPkOk "" ps).flatMap (·.dbids)) := by
  obtain ⟨h1, h2, h3⟩ := @pages_from blsPkOk "" ps
  exact ⟨h1, fun k hk => (h2 k hk).2, fun hd k hall => h3 hd k (not_lt_empty k) hall⟩

/-! ## The collector -/

/-- A leaf that has expired stays expired. -/
theorem expired_mono {i : Hsh} {ttl updateTime now now' : Int} (h : i.expired ttl updateTime now = true) (hle : now ≤ now') :
    i.expired ttl updateTime now' = true := by
  cases i <;> simp only [Hsh.expired, decide_eq_true_eq, Bool.false_eq_true] at h ⊢ <;> omega

theorem gcTry_err {m : Eff Unit} (h : ∃ msg, m = err msg) (counted cnt : GcCounts) : gcTry m counted cnt = pure cnt.skip := by
  obtain ⟨msg, rfl⟩ := h
  rfl

/-- What the functions for one kind of leaf begin with. -/
theorem cast_err {τ : Type} {cast : Payload → Option τ} {d : DataPtr} {o : DataObj} {msg : String} {k : Leaf τ → Eff Unit}
    (h : ∀ v : τ, ∃ msg, k ⟨d, o, v⟩ = err msg) : ∃ msg', (orErr msg (castTo cast (some (d, o))) >>= k) = err msg' := by
  rcases hv : cast o.payload with _ | v
  · exact ⟨msg, by simp only [castTo, hv]; rfl⟩
  · obtain ⟨msg, hk⟩ := h v
    refine ⟨msg, ?_⟩
    simp only [castTo, hv]
    exact hk

theorem failIf_err {c : Prop} [Decidable c] {msg : String} {k : Eff Unit} (h : ¬ c → ∃ msg, k = err msg) :
    ∃ msg', (failIf c msg >>= fun _ => k) = err msg' := by
  by_cases hc : c
  · exact ⟨msg, by simp only [failIf, if_pos hc]; rfl⟩
  · obtain ⟨msg, hk⟩ := h hc
    refine ⟨msg, ?_⟩
    rw [failIf, if_neg hc]
    exact hk

/-- `execute_gc` goes by the same times: it skips an item with a leaf that a scan by the time of the block would not report. -/
theorem gcItem_unexpired (Γ : Ctx) (now : Int) (cnt : GcCounts) {i : Hsh} {d : DataPtr} {o : DataObj}
    (h : i.expired o.ttl o.updateTime now = false) : gcItem Γ now cnt (i, some (d, o)) = pure cnt.skip := by
  cases i with
  | bcContractData =>
    simp only [Hsh.expired, decide_eq_false_iff_not] at h
    refine gcTry_err ?_ _ _
    unfold gcGranuleApply
    refine cast_err fun v => ?_
    refine failIf_err fun hc => failIf_err fun hn => ?_
    exact absurd ⟨by simpa using hc, by simpa using hn⟩ h
  | bcContractActivity =>
    simp only [Hsh.expired, decide_eq_false_iff_not] at h
    refine gcTry_err ?_ _ _
    unfold gcContractApply
    refine cast_err fun v => ?_
    refine failIf_err fun hn => ?_
    exact absurd (by simpa using hn) h
  | bcNode =>
    simp only [Hsh.expired, decide_eq_false_iff_not] at h
    refine gcTry_err ?_ _ _
    unfold gcNodeApply
    refine cast_err fun v => ?_
    refine failIf_err fun hc => failIf_err fun hn => ?_
    exact absurd ⟨by simpa using hc, by simpa using hn⟩ h
  | bcAddressState =>
    simp only [Hsh.expired, decide_eq_false_iff_not] at h
    refine gcTry_err ?_ _ _
    unfold gcAddressApply
    refine cast_err fun v => ?_
    refine failIf_err fun hc => failIf_err fun hn => ?_
    exact absurd ⟨by simpa using hc, by simpa using hn⟩ h
  | _ => rfl

end Scan

end Grain
