import Grain.Lemmas.Meta
import Grain.Theorems.Delivery

/-!
# The choice of the committee

The two loops of `getMetaFull` over the candidates in order: each takes the first of those that pass its filter, up to the number
of places that are left.
-/

namespace Grain

open Prog Eff

variable {Γ : NodeCtx} {s : NodeSt} {win : Int} {m : BlockMetaFull} {root : String}

/-! ## The loops -/

/-- A candidate that the first loop takes, by what the tree says of it. -/
def answers (look : String → Except Stop (Option BcNode)) (answeredMin minStake : Int) (x : NodeElement) : Bool :=
  match look x.name with
  | .ok (some n) => decide (n.answeredRounds > answeredMin ∧ x.stakeA ≥ minStake)
  | _ => false

/-- The first loop takes the first candidates that answered and have the stake. -/
theorem strictChoice_eq {look : String → Except Stop (Option BcNode)} {count answeredMin minStake : Int} {l c c' : List NodeElement}
    (h : strictChoice look count answeredMin minStake l c = .ok c') :
    c' = c ++ (l.filter (answers look answeredMin minStake)).take (count.toNat - c.length) := by
  induction l generalizing c with
  | nil =>
    obtain rfl := Except.ok.inj h
    simp
  | cons x l ih =>
    unfold strictChoice at h
    by_cases hlt : (c.length : Int) < count
    · rw [if_pos hlt] at h
      obtain ⟨k, hk⟩ : ∃ k, count.toNat - c.length = k + 1 := ⟨count.toNat - c.length - 1, by omega⟩
      rcases hx : look x.name with e | r
      · rw [hx] at h
        cases h
      · rw [hx] at h
        dsimp only [Except.bind] at h
        have hans : answers look answeredMin minStake x = true ↔ (∃ n ∈ r, n.answeredRounds > answeredMin) ∧ x.stakeA ≥ minStake := by
          unfold answers
          rw [hx]
          cases r <;> simp
        by_cases hc : (∃ n ∈ r, n.answeredRounds > answeredMin) ∧ x.stakeA ≥ minStake
        · rw [if_pos hc] at h
          rw [List.filter_cons_of_pos (hans.2 hc), hk, List.take_succ_cons, ih h]
          have hlen : count.toNat - (c ++ [x]).length = k := by
            rw [List.length_append, List.length_singleton]
            omega
          rw [hlen, List.append_assoc]
          rfl
        · rw [if_neg hc] at h
          rw [List.filter_cons_of_neg fun ha => hc (hans.1 ha)]
          exact ih h
    · rw [if_neg hlt] at h
      obtain rfl := Except.ok.inj h
      have hz : count.toNat - c.length = 0 := by omega
      rw [hz, List.take_zero, List.append_nil]

/-- A candidate that the second loop takes after some have been chosen. -/
def remains (minStake : Int) (c : List NodeElement) (x : NodeElement) : Bool := decide (x ∉ c ∧ x.stakeA ≥ minStake)

/-- The members are the names of those that have been chosen. -/
def Enrolled (m : BlockMetaFull) (c : List NodeElement) : Prop := ∀ a, a ∈ m.committeMembers ↔ ∃ x ∈ c, x.name = a

theorem Enrolled.enrol {c : List NodeElement} (h : Enrolled m c) (x : NodeElement) : Enrolled (m.enrol x) (c ++ [x]) := by
  intro a
  unfold BlockMetaFull.enrol
  rw [Std.ExtTreeSet.mem_insert, Std.LawfulEqCmp.compare_eq_iff_eq, h a]
  simp only [List.mem_append, List.mem_singleton]
  constructor
  · rintro (rfl | ⟨y, hy, rfl⟩)
    · exact ⟨x, .inr rfl, rfl⟩
    · exact ⟨y, .inl hy, rfl⟩
  · rintro ⟨y, hy | rfl, rfl⟩
    · exact .inr ⟨y, hy, rfl⟩
    · exact .inl rfl

/-- The second loop takes the first of the remaining candidates that have the stake. The candidates that are still to come and
those that have been chosen are told apart by their names. -/
theorem relaxedCommittee_eq (count minStake : Int) {l c : List NodeElement} (he : Enrolled m c) (hl : (l.map (·.name)).Nodup)
    (hc : ∀ x ∈ l, ∀ y ∈ c, y.name = x.name → y = x) :
    (relaxedCommittee count minStake l m c).2 = c ++ (l.filter (remains minStake c)).take (count.toNat - c.length) ∧
      Enrolled (relaxedCommittee count minStake l m c).1 (relaxedCommittee count minStake l m c).2 := by
  induction l generalizing m c with
  | nil => exact ⟨by simp [relaxedCommittee], he⟩
  | cons x l ih =>
    rw [List.map_cons, List.nodup_cons] at hl
    unfold relaxedCommittee
    by_cases hlt : (c.length : Int) < count
    · rw [if_pos hlt]
      have hmem : x.name ∈ m.committeMembers ↔ x ∈ c := by
        rw [he x.name]
        constructor
        · rintro ⟨y, hy, hname⟩
          rw [← hc x List.mem_cons_self y hy hname]
          exact hy
        · exact fun hx => ⟨x, hx, rfl⟩
      by_cases hx : x.name ∉ m.committeMembers ∧ x.stakeA ≥ minStake
      · have hrem : remains minStake c x = true := decide_eq_true ⟨fun h => hx.1 (hmem.2 h), hx.2⟩
        have hapart : ∀ z ∈ l, ∀ y ∈ c ++ [x], y.name = z.name → y = z := by
          intro z hz y hy hname
          rcases List.mem_append.1 hy with hy | hy
          · exact hc z (List.mem_cons_of_mem _ hz) y hy hname
          · obtain rfl := List.mem_singleton.1 hy
            exact absurd (List.mem_map.2 ⟨z, hz, hname.symm⟩) hl.1
        obtain ⟨h1, h2⟩ := ih (he.enrol x) hl.2 hapart
        obtain ⟨k, hk⟩ : ∃ k, count.toNat - c.length = k + 1 := ⟨count.toNat - c.length - 1, by omega⟩
        have hlen : count.toNat - (c ++ [x]).length = k := by
          rw [List.length_append, List.length_singleton]
          omega
        -- for those that are still to come it makes no difference that this one has been chosen
        have hfilter : l.filter (remains minStake (c ++ [x])) = l.filter (remains minStake c) := by
          refine List.filter_congr fun z hz => ?_
          have hne : z ≠ x := fun h => hl.1 (List.mem_map.2 ⟨z, hz, by rw [h]⟩)
          unfold remains
          simp [hne]
        rw [if_pos hx]
        refine ⟨?_, h2⟩
        rw [h1, List.filter_cons_of_pos hrem, hk, List.take_succ_cons, hlen, hfilter, List.append_assoc]
        rfl
      · have hrem : ¬ remains minStake c x = true := by
          intro h
          have hd := of_decide_eq_true h
          exact hx ⟨fun hm => hd.1 (hmem.1 hm), hd.2⟩
        rw [if_neg hx, List.filter_cons_of_neg hrem]
        exact ih he hl.2 fun z hz => hc z (List.mem_cons_of_mem _ hz)
    · rw [if_neg hlt]
      have hz : count.toNat - c.length = 0 := by omega
      refine ⟨?_, he⟩
      rw [hz, List.take_zero, List.append_nil]

/-! ## The committee -/

/-- The committee that the metadata has, chosen from the nodes in order. -/
structure Elected (Γ : NodeCtx) (s : NodeSt) (win : Int) (m : BlockMetaFull) (ns : List BcNode) (count minStake answeredMin : Int)
    (c : List NodeElement) : Prop where
  /-- The first that answered and have the stake, then the first of the others that have it. -/
  chosen : ∀ l first, l = (rank (s.weightOf Γ win) ns).map (·.getElement) →
    first = (l.filter (answers (nodeOf Γ.ctx s.st) answeredMin minStake)).take count.toNat →
    c = first ++ (l.filter (remains minStake first)).take (count.toNat - first.length)
  nodup : (c.map (·.name)).Nodup
  few : (c.length : Int) ≤ count
  some : c ≠ []
  members : ∀ a, a ∈ m.committeMembers ↔ ∃ x ∈ c, x.name = a
  tree : buildTree c = .ok m.treeCommitte
  /-- The members are the nodes of the tree. -/
  nodes : ∀ a, a ∈ m.committeMembers ↔ ∃ u ∈ m.treeCommitte.beneath, u.node.name = a

/-- The names of the candidates are those of the nodes. -/
theorem nodup_elements {x : MetaParts} (h : (x.ns.map (·.name)).Nodup) : ((x.elements Γ s win).map (·.name)).Nodup := by
  have hnames : (x.elements Γ s win).map (·.name) = (x.vne Γ s win).map (·.name) := by
    unfold MetaParts.elements
    rw [List.map_map]
    rfl
  rw [hnames]
  exact (((rank_perm (s.weightOf Γ win) h).map (·.name)).nodup_iff).2 h

/-- A computation that ends elects a committee. -/
theorem MetaRun.elected {x : MetaParts} (h : MetaRun Γ s win m x) (hn : (x.ns.map (·.name)).Nodup) :
    ∃ c, Elected Γ s win m x.ns x.count x.minStake x.answeredMin c := by
  have hl : ((x.elements Γ s win).map (·.name)).Nodup := nodup_elements hn
  -- the first loop
  have hstrict := strictChoice_eq h.strict
  rw [List.nil_append, List.length_nil, Nat.sub_zero] at hstrict
  have hsub : x.strict.Sublist (x.elements Γ s win) := by
    rw [hstrict]
    exact (List.take_sublist _ _).trans List.filter_sublist
  have henrolled : Enrolled (x.strict.foldl .enrol (x.ranked Γ s win)) x.strict := by
    intro a
    rw [mem_foldl_enrol]
    have hempty : a ∉ (x.ranked Γ s win).committeMembers := Std.ExtTreeSet.not_mem_empty
    simp [hempty]
  -- the second loop
  have hinj : ∀ z ∈ x.elements Γ s win, ∀ y ∈ x.strict, y.name = z.name → y = z := by
    intro z hz y hy hname
    exact List.inj_on_of_nodup_map hl (hsub.subset hy) hz hname
  obtain ⟨hc, he⟩ := relaxedCommittee_eq x.count x.minStake henrolled hl hinj
  change (x.relaxed Γ s win).2 = _ at hc
  change Enrolled (x.relaxed Γ s win).1 (x.relaxed Γ s win).2 at he
  set c := (x.relaxed Γ s win).2 with hcdef
  have hmembers : ∀ a, a ∈ m.committeMembers ↔ ∃ y ∈ c, y.name = a := by
    rw [h.result]
    exact he
  have htree : buildTree c = .ok m.treeCommitte := by
    rw [h.result]
    exact h.committe
  have hrest : ((x.elements Γ s win).filter (remains x.minStake x.strict)).Sublist (x.elements Γ s win) := List.filter_sublist
  have hnodup : (c.map (·.name)).Nodup := by
    rw [hc, List.map_append, List.nodup_append]
    refine ⟨hl.sublist (hsub.map _), hl.sublist (((List.take_sublist _ _).trans hrest).map _), ?_⟩
    rintro a ha b hb rfl
    obtain ⟨y, hy, rfl⟩ := List.mem_map.1 ha
    obtain ⟨z, hz, hname⟩ := List.mem_map.1 hb
    have hz' := List.mem_filter.1 (List.mem_of_mem_take hz)
    obtain rfl := hinj z hz'.1 y hy hname.symm
    exact (of_decide_eq_true hz'.2).1 hy
  have hfew : (c.length : Int) ≤ x.count := by
    have h1 : x.strict.length ≤ x.count.toNat := by
      rw [hstrict]
      exact List.length_take_le _ _
    have h2 : (((x.elements Γ s win).filter (remains x.minStake x.strict)).take (x.count.toNat - x.strict.length)).length ≤
        x.count.toNat - x.strict.length := List.length_take_le _ _
    have hpos := not_or.1 h.enough
    rw [hc, List.length_append]
    omega
  refine ⟨c, ?_, hnodup, hfew, h.some, hmembers, htree, fun a => ?_⟩
  · rintro l first rfl rfl
    rw [hc, hstrict]
    rfl
  · have hperm := perm_buildTree htree
    rw [hmembers a]
    constructor
    · rintro ⟨y, hy, rfl⟩
      obtain ⟨u, hu, rfl⟩ := List.mem_map.1 (hperm.mem_iff.2 hy)
      exact ⟨u, hu, rfl⟩
    · rintro ⟨u, hu, rfl⟩
      exact ⟨u.node, hperm.mem_iff.1 (List.mem_map_of_mem hu), rfl⟩

end Grain
