import Grain.Theorems.Election

/-!
# The cache of metadata

`getMetaFull` puts its result into the cache before it has computed it. If the first call for a window raises an exception, the
second returns what the first has got to.
-/

namespace Grain

open Prog Eff

variable {Γ : NodeCtx} {s u : NodeSt} {root : String} {win : Int} {m : BlockMetaFull}

/-! ## Calls -/

/-- A call of `getMetaFull`, or what else happens to the tree and to the previous block. -/
inductive MetaStep
  | call (ti : Int)
  | change (st : St) (prev : Option BlockAccepted2REQ)

/-- The calls for a root and a window in a run: the states that they start in, and what they return. -/
def calls (Γ : NodeCtx) (root : String) (win : Int) : List MetaStep → NodeSt → List (NodeSt × Except Stop BlockMetaFull)
  | [], _ => []
  | .call ti :: l, s =>
    let r := runNode (getMetaFull Γ ti) s
    if s.prevRootHashZ = root ∧ window ti = win then (s, r.1) :: calls Γ root win l r.2 else calls Γ root win l r.2
  | .change st prev :: l, s => calls Γ root win l { s with st := st, prevBlock := prev }

/-- The metadata are all that the computation fills in, from the nodes and the values in the tree. -/
def Completes (Γ : NodeCtx) (s : NodeSt) (win : Int) (m : BlockMetaFull) : Prop := ∃ x, MetaRun Γ s win m x

/-- The calls for a root and a window all raise, or they all return the same complete metadata. -/
def Stable (Γ : NodeCtx) (root : String) (win : Int) (l : List MetaStep) (s : NodeSt) : Prop :=
  (∀ c ∈ calls Γ root win l s, ∃ e, c.2 = .error e) ∨
    ∃ m, (∃ c ∈ calls Γ root win l s, Completes Γ c.1 win m) ∧ ∀ c ∈ calls Γ root win l s, c.2 = .ok m

/-! ## The conditions of the computation -/

/-- The tree has what the computation asks of it: the nodes and the three values can be read, and the nodes that the first loop
looks up; the committee is smaller than the number of enabled nodes; and one of these has the stake for it. -/
def Ready (Γ : NodeCtx) (s : NodeSt) (win : Int) : Prop :=
  ∃ ns pct minStake answeredMin count strict,
    (runEff Γ.ctx (enabledNodes Γ.ctx) s.st).1 = .ok ns ∧
    (runEff Γ.ctx (committeeValue Γ.ctx "validator_count_percent") s.st).1 = .ok pct ∧
    (runEff Γ.ctx (committeeValue Γ.ctx "validator_min_stake") s.st).1 = .ok minStake ∧
    (runEff Γ.ctx (committeeValue Γ.ctx "answered_committee_min") s.st).1 = .ok answeredMin ∧
    count = (wrap64 (ns.length * pct)).tdiv 100 ∧ 0 < count ∧ count < (rank (s.weightOf Γ win) ns).length ∧
    strictChoice (nodeOf Γ.ctx s.st) count answeredMin minStake ((rank (s.weightOf Γ win) ns).map (·.getElement)) [] = .ok strict ∧
    ∃ n ∈ rank (s.weightOf Γ win) ns, minStake ≤ n.getFullStake

/-- Who is chosen by the first loop has the stake and is a candidate. -/
theorem mem_strictChoice {look : String → Except Stop (Option BcNode)} {count answeredMin minStake : Int} {l c c' : List NodeElement}
    (h : strictChoice look count answeredMin minStake l c = .ok c') {x : NodeElement} (hx : x ∈ c') :
    x ∈ c ∨ x ∈ l ∧ minStake ≤ x.stakeA := by
  induction l generalizing c with
  | nil =>
    obtain rfl := Except.ok.inj h
    exact .inl hx
  | cons z l ih =>
    unfold strictChoice at h
    split at h
    · cases hz : look z.name with
      | error e =>
        rw [hz] at h
        cases h
      | ok r =>
        rw [hz] at h
        change (if _ then _ else _) = _ at h
        split at h
        next hc =>
          rcases ih h with hm | ⟨hm, hs⟩
          · rcases List.mem_append.1 hm with hm | hm
            · exact .inl hm
            · obtain rfl := List.mem_singleton.1 hm
              exact .inr ⟨List.mem_cons_self, hc.2⟩
          · exact .inr ⟨List.mem_cons_of_mem _ hm, hs⟩
        next hc =>
          rcases ih h with hm | ⟨hm, hs⟩
          · exact .inl hm
          · exact .inr ⟨List.mem_cons_of_mem _ hm, hs⟩
    · obtain rfl := Except.ok.inj h
      exact .inl hx

/-- So has who is chosen by the second. -/
theorem mem_relaxedCommittee {count minStake : Int} {l c : List NodeElement} {x : NodeElement}
    (hx : x ∈ (relaxedCommittee count minStake l m c).2) : x ∈ c ∨ (c.length : Int) < count ∧ x ∈ l ∧ minStake ≤ x.stakeA := by
  induction l generalizing m c with
  | nil => exact .inl hx
  | cons z l ih =>
    unfold relaxedCommittee at hx
    split at hx
    next hlt =>
      split at hx
      next hc =>
        rcases ih hx with hm | ⟨-, hm, hs⟩
        · rcases List.mem_append.1 hm with hm | hm
          · exact .inl hm
          · obtain rfl := List.mem_singleton.1 hm
            exact .inr ⟨hlt, List.mem_cons_self, hc.2⟩
        · exact .inr ⟨hlt, List.mem_cons_of_mem _ hm, hs⟩
      next hc =>
        rcases ih hx with hm | ⟨hlt', hm, hs⟩
        · exact .inl hm
        · exact .inr ⟨hlt', List.mem_cons_of_mem _ hm, hs⟩
    · exact .inl hx

/-- Without places the first loop chooses nobody. -/
theorem strictChoice_of_nonpos {look : String → Except Stop (Option BcNode)} {count answeredMin minStake : Int}
    (l : List NodeElement) (h : count ≤ 0) : strictChoice look count answeredMin minStake l [] = .ok [] := by
  cases l with
  | nil => rfl
  | cons x l =>
    unfold strictChoice
    rw [if_neg (by simpa using h)]

/-- Under these conditions, and no others, the computation ends with complete metadata. -/
theorem ready_iff : Ready Γ s win ↔ ∃ m, Completes Γ s win m := by
  constructor
  · rintro ⟨ns, pct, minStake, answeredMin, count, strict, hns, hpct, hmin, hans, rfl, hpos, hlt, hstrict, n, hn, hstake⟩
    set l := (rank (s.weightOf Γ win) ns).map (·.getElement) with hl
    have hne : l ≠ [] := List.ne_nil_of_mem (List.mem_map_of_mem hn)
    obtain ⟨all, hall⟩ := buildTree_ok hne
    let x : MetaParts := ⟨ns, pct, all, minStake, answeredMin, strict, .mk { name := "" } []⟩
    have hsome : (x.relaxed Γ s win).2 ≠ [] := by
      refine relaxedCommittee_ne_nil hpos (fun a hmem => ?_) (.inr ⟨n.getElement, List.mem_map_of_mem hn, hstake⟩)
      rcases mem_foldl_enrol.1 hmem with hmem | ⟨y, hy, -⟩
      · exact absurd hmem Std.ExtTreeSet.not_mem_empty
      · exact List.ne_nil_of_mem hy
    obtain ⟨committe, hcommitte⟩ := buildTree_ok hsome
    refine ⟨_, ⟨ns, pct, all, minStake, answeredMin, strict, committe⟩, hns, hpct, hall, ?_, hmin, hans, hstrict, hsome, hcommitte, rfl⟩
    rintro (h | h)
    · exact absurd hpos (not_lt.2 (le_of_lt h))
    · exact absurd hlt (not_lt.2 h)
  · rintro ⟨m, x, h⟩
    have hchosen : 0 < x.count ∧ ∃ y ∈ x.elements Γ s win, x.minStake ≤ y.stakeA := by
      obtain ⟨y, hy⟩ := List.exists_mem_of_ne_nil _ h.some
      rcases mem_relaxedCommittee hy with hm | ⟨hlt, hm, hs⟩
      · rcases mem_strictChoice h.strict hm with hm' | ⟨hm', hs⟩
        · cases hm'
        · refine ⟨?_, y, hm', hs⟩
          by_contra hneg
          have hnil := h.strict
          rw [strictChoice_of_nonpos _ (not_lt.1 hneg)] at hnil
          rw [← Except.ok.inj hnil] at hm
          cases hm
      · exact ⟨by omega, y, hm, hs⟩
    obtain ⟨hpos, y, hy, hs⟩ := hchosen
    obtain ⟨n, hn, rfl⟩ := List.mem_map.1 hy
    have henough := not_or.1 h.enough
    exact ⟨x.ns, x.pct, x.minStake, x.answeredMin, x.count, x.strict, h.nodes, h.share, h.minStake, h.answeredMin, rfl, hpos,
      not_le.1 henough.2, h.strict, n, hn, hs⟩

/-! ## Entries -/

theorem metaAt_setMeta (s : NodeSt) (root root' : String) (win win' : Int) (m : BlockMetaFull) :
    (s.setMeta root' win' m).metaAt root win = if root' = root ∧ win' = win then some m else s.metaAt root win := by
  unfold NodeSt.metaAt NodeSt.setMeta
  dsimp only
  rw [StdMap.getElem?_insert]
  by_cases hr : root' = root
  · subst hr
    rw [if_pos rfl, Option.getD_some, StdMap.getElem?_insert]
    simp
  · rw [if_neg hr, if_neg fun h => hr h.1]

/-- The computation for one window leaves the entries of the others. -/
theorem metaAt_computeMeta {root' : String} {win' : Int} (h : ¬ (root' = root ∧ win' = win)) (s : NodeSt) :
    (runNode (computeMeta Γ root' win') s).2.metaAt root win = s.metaAt root win := by
  have hset : ∀ (t : NodeSt) (m : BlockMetaFull), t.metaAt root win = s.metaAt root win →
      (t.setMeta root' win' m).metaAt root win = s.metaAt root win := by
    intro t m ht
    rw [metaAt_setMeta, if_neg h, ht]
  obtain ⟨rest, hrest, hkeeps⟩ := computeMeta_keeps Γ root' win' (I := fun t => t.metaAt root win = s.metaAt root win)
    (P := fun _ => True) (fun _ _ ht => ht) (fun t m _ ht => hset t m ht) (fun _ _ _ _ => trivial) (fun _ _ => trivial)
  rw [hrest, runNode_modify_bind]
  exact hkeeps _ (hset s {} rfl)

/-- It leaves an entry for its own, in whatever way it ends. -/
theorem metaAt_computeMeta_self (Γ : NodeCtx) (root : String) (win : Int) (s : NodeSt) :
    ∃ p, (runNode (computeMeta Γ root win) s).2.metaAt root win = some p := by
  have hset : ∀ (t : NodeSt) (m : BlockMetaFull), ((t.setMeta root win m).metaAt root win).isSome = true := by
    intro t m
    rw [metaAt_setMeta, if_pos ⟨rfl, rfl⟩]
    rfl
  obtain ⟨rest, hrest, hkeeps⟩ := computeMeta_keeps Γ root win (I := fun t => (t.metaAt root win).isSome = true)
    (P := fun _ => True) (fun _ _ ht => ht) (fun t m _ _ => hset t m) (fun _ _ _ _ => trivial) (fun _ _ => trivial)
  rw [hrest, runNode_modify_bind]
  exact Option.isSome_iff_exists.1 (hkeeps _ (hset s {}))

/-- A call for a window that has an entry returns it. -/
theorem getMetaFull_hit {ti : Int} (h : s.metaAt s.prevRootHashZ (window ti) = some m) :
    runNode (getMetaFull Γ ti) s = (.ok m, s) := by
  unfold getMetaFull
  rw [runNode_get_bind, h]
  rfl

theorem getMetaFull_miss {ti : Int} (h : s.metaAt s.prevRootHashZ (window ti) = none) :
    runNode (getMetaFull Γ ti) s = runNode (computeMeta Γ s.prevRootHashZ (window ti)) s := by
  unfold getMetaFull
  rw [runNode_get_bind, h]

/-- A call for another root or window leaves the entry. -/
theorem metaAt_getMetaFull {ti : Int} (h : ¬ (s.prevRootHashZ = root ∧ window ti = win)) :
    (runNode (getMetaFull Γ ti) s).2.metaAt root win = s.metaAt root win := by
  cases hat : s.metaAt s.prevRootHashZ (window ti) with
  | some m => rw [getMetaFull_hit hat]
  | none =>
    rw [getMetaFull_miss hat]
    exact metaAt_computeMeta h s

/-! ## Runs -/

/-- Once there is an entry, all calls return it. -/
theorem calls_hit (l : List MetaStep) (h : s.metaAt root win = some m) : ∀ c ∈ calls Γ root win l s, c.2 = .ok m := by
  induction l generalizing s with
  | nil =>
    intro c hc
    cases hc
  | cons e l ih =>
    cases e with
    | change st prev =>
      exact ih (s := { s with st := st, prevBlock := prev }) h
    | call ti =>
      unfold calls
      dsimp only
      by_cases hask : s.prevRootHashZ = root ∧ window ti = win
      · obtain ⟨rfl, rfl⟩ := hask
        rw [if_pos ⟨rfl, rfl⟩, getMetaFull_hit h]
        intro c hc
        rcases List.mem_cons.1 hc with rfl | hc
        · rfl
        · exact ih h c hc
      · rw [if_neg hask]
        exact ih ((metaAt_getMetaFull hask).trans h)

/-- Without an entry, the first call computes, and the others return the entry that the computation leaves. -/
theorem calls_miss (l : List MetaStep) (h : s.metaAt root win = none) : calls Γ root win l s = [] ∨
    ∃ u p rest, calls Γ root win l s = (u, (runNode (computeMeta Γ root win) u).1) :: rest ∧
      (runNode (computeMeta Γ root win) u).2.metaAt root win = some p ∧ ∀ c ∈ rest, c.2 = .ok p := by
  induction l generalizing s with
  | nil => exact .inl rfl
  | cons e l ih =>
    cases e with
    | change st prev => exact ih (s := { s with st := st, prevBlock := prev }) h
    | call ti =>
      unfold calls
      dsimp only
      by_cases hask : s.prevRootHashZ = root ∧ window ti = win
      · obtain ⟨rfl, rfl⟩ := hask
        rw [if_pos ⟨rfl, rfl⟩, getMetaFull_miss h]
        obtain ⟨p, hp⟩ := metaAt_computeMeta_self Γ s.prevRootHashZ (window ti) s
        exact .inr ⟨s, p, _, rfl, hp, calls_hit l hp⟩
      · rw [if_neg hask]
        exact ih ((metaAt_getMetaFull hask).trans h)

/-- Where the computation ends with complete metadata, these are its entry. -/
theorem Completes.run (h : Completes Γ u win m) (root : String) :
    (runNode (computeMeta Γ root win) u).1 = .ok m ∧ (runNode (computeMeta Γ root win) u).2.metaAt root win = some m := by
  obtain ⟨x, hx⟩ := h
  obtain ⟨mm, hrun, hat⟩ := hx.run root
  rw [hrun]
  exact ⟨rfl, hat⟩

/-- The calls for a root and a window that is not in the cache are stable if, and only if, there is at most one of them or the tree
is ready when the first is made. -/
theorem getMetaFull_stable (Γ : NodeCtx) (root : String) (win : Int) (l : List MetaStep) (s : NodeSt)
    (h : s.metaAt root win = none) :
    Stable Γ root win l s ↔ (calls Γ root win l s).length ≤ 1 ∨ ∃ c ∈ (calls Γ root win l s).head?, Ready Γ c.1 win := by
  unfold Stable
  rcases calls_miss (Γ := Γ) l h with hnil | ⟨u, p, rest, hcalls, hp, hrest⟩
  · rw [hnil]
    exact iff_of_true (.inl fun c hc => nomatch hc) (.inl (Nat.zero_le 1))
  · rw [hcalls]
    by_cases hready : Ready Γ u win
    · obtain ⟨m, hm⟩ := ready_iff.1 hready
      obtain ⟨hrun, hat⟩ := hm.run root
      obtain rfl : p = m := Option.some.inj (hp.symm.trans hat)
      refine iff_of_true (.inr ⟨p, ⟨_, List.mem_cons_self, hm⟩, fun c hc => ?_⟩) (.inr ⟨_, rfl, hready⟩)
      rcases List.mem_cons.1 hc with rfl | hc
      · exact hrun
      · exact hrest c hc
    · obtain ⟨e, he⟩ : ∃ e, (runNode (computeMeta Γ root win) u).1 = .error e := by
        cases hrun : (runNode (computeMeta Γ root win) u).1 with
        | error e => exact ⟨e, rfl⟩
        | ok m => exact absurd (ready_iff.2 ⟨m, metaRun_of_ok hrun⟩) hready
      rw [he]
      cases rest with
      | nil =>
        refine iff_of_true (.inl fun c hc => ?_) (.inl le_rfl)
        obtain rfl := List.mem_singleton.1 hc
        exact ⟨e, rfl⟩
      | cons c rest =>
        have hc := hrest c List.mem_cons_self
        refine iff_of_false ?_ ?_
        · rintro (hall | ⟨m, -, hall⟩)
          · obtain ⟨e', he'⟩ := hall c (List.mem_cons_of_mem _ List.mem_cons_self)
            rw [hc] at he'
            cases he'
          · cases hall _ List.mem_cons_self
        · rintro (hlen | ⟨d, hd, hd'⟩)
          · simp at hlen
          · obtain rfl := Option.some.inj hd
            exact hready hd'

open Sample in
/-- With all nodes in the committee the first call raises, and the second returns metadata without a committee. -/
theorem getMetaFull_stable_false : ¬ Stable (nodeCtx "o") "" 0 [.call 5, .call 5] crowded := by
  have hanswers : ((calls (nodeCtx "o") "" 0 [.call 5, .call 5] crowded).map fun c => c.2.isOk) = [false, true] := by
    decide +kernel
  intro h
  cases hcalls : calls (nodeCtx "o") "" 0 [.call 5, .call 5] crowded with
  | nil =>
    rw [hcalls] at hanswers
    cases hanswers
  | cons a l =>
    cases l with
    | nil =>
      rw [hcalls] at hanswers
      have hlen := congrArg List.length hanswers
      cases hlen
    | cons b l =>
      rw [hcalls, List.map_cons, List.map_cons] at hanswers
      obtain ⟨ha, hb⟩ := List.cons.inj hanswers
      obtain ⟨hb, -⟩ := List.cons.inj hb
      unfold Stable at h
      rw [hcalls] at h
      rcases h with hall | ⟨m, -, hall⟩
      · obtain ⟨e, he⟩ := hall b (List.mem_cons_of_mem _ List.mem_cons_self)
        rw [he] at hb
        cases hb
      · rw [hall a List.mem_cons_self] at ha
        cases ha

open Sample in
theorem getMetaFull_stable_sample : Stable (nodeCtx "o") "" 0 [.call 5, .change crowded.st none, .call 6] nodeSt ↔
    (calls (nodeCtx "o") "" 0 [.call 5, .change crowded.st none, .call 6] nodeSt).length ≤ 1 ∨
      ∃ c ∈ (calls (nodeCtx "o") "" 0 [.call 5, .change crowded.st none, .call 6] nodeSt).head?, Ready (nodeCtx "o") c.1 0 :=
  getMetaFull_stable (nodeCtx "o") "" 0 [.call 5, .change crowded.st none, .call 6] nodeSt (by simp [NodeSt.metaAt, nodeSt])

end Grain
