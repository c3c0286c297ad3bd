import Grain.Lemmas.Meta

/-!
# The order of the nodes

`getMetaFull` files every enabled node under a quotient of its ticket, an unsigned number, by its stake, and the quotient is the
key of a map with signed keys. The nodes are numbered in the order of these keys, and of their names where the keys are equal.
-/

namespace Grain

open Prog Eff

variable {Γ : NodeCtx} {s : NodeSt} {win : Int} {m : BlockMetaFull} {ns : List BcNode}

/-! ## Numbering -/

/-- A list numbers its members if none is in it twice. -/
theorem positions_eq {l : List String} (h : l.Nodup) {a : String} {i : Nat} : (positions l)[a]? = some i ↔ l[i]? = some a := by
  constructor
  · exact positions_getElem
  · intro hi
    have hmem : ∀ (z : List (String × Nat)) (m : StdMap String Nat), (a ∈ m ∨ ∃ x ∈ z, x.1 = a) →
        a ∈ z.foldl (fun m z => m.insert z.1 z.2) m := by
      intro z
      induction z with
      | nil =>
        rintro m (hm | ⟨x, hx, -⟩)
        · exact hm
        · cases hx
      | cons x z ih =>
        intro m hm
        refine ih _ ?_
        rw [StdMap.mem_insert]
        rcases hm with hm | ⟨y, hy, rfl⟩
        · exact .inl (.inr hm)
        · rcases List.mem_cons.1 hy with rfl | hy
          · exact .inl (.inl rfl)
          · exact .inr ⟨y, hy, rfl⟩
    have ha : a ∈ positions l := hmem _ _ (.inr ⟨(a, i), List.mk_mem_zipIdx_iff_getElem?.2 hi, rfl⟩)
    obtain ⟨j, hj⟩ := (StdMap.mem_iff _ _).1 ha
    have hlt : i < l.length := (List.getElem?_eq_some_iff.1 hi).1
    have hij : i = j := (List.getElem?_inj hlt h).1 (hi.trans (positions_getElem hj).symm)
    rw [hj, hij]

/-- The names of the nodes have the numbers below their count, each of them one. -/
structure Numbered (ns : List BcNode) (m : BlockMetaFull) : Prop where
  number : ∀ n ∈ ns, ∃ i < ns.length, m.positionOfNode[n.name]? = some i
  name : ∀ i < ns.length, ∃ n ∈ ns, m.positionOfNode[n.name]? = some i
  node : ∀ (a : String) (i : Nat), m.positionOfNode[a]? = some i → ∃ n ∈ ns, n.name = a
  apart : m.Apart

theorem numbered_of_perm {vne : List BcNode} (hp : vne.Perm ns) (hn : (ns.map (·.name)).Nodup)
    (hm : m.positionOfNode = positions (vne.map (·.name))) : Numbered ns m := by
  have hnames : (vne.map (·.name)).Nodup := (hp.map _).nodup_iff.2 hn
  have hlen := hp.length_eq
  constructor
  · intro n h
    obtain ⟨i, hi, he⟩ := List.mem_iff_getElem.1 (hp.mem_iff.2 h)
    refine ⟨i, by omega, ?_⟩
    rw [hm, positions_eq hnames, List.getElem?_map, List.getElem?_eq_getElem hi, he]
    rfl
  · intro i hi
    have hi' : i < vne.length := by omega
    refine ⟨vne[i], hp.mem_iff.1 (List.getElem_mem hi'), ?_⟩
    rw [hm, positions_eq hnames, List.getElem?_map, List.getElem?_eq_getElem hi']
    rfl
  · intro a i h
    rw [hm, positions_eq hnames] at h
    obtain ⟨n, hmem, rfl⟩ := List.mem_map.1 (List.mem_of_getElem? h)
    exact ⟨n, hp.mem_iff.1 hmem, rfl⟩
  · intro a b p ha hb
    rw [hm, positions_eq hnames] at ha hb
    exact Option.some.inj (ha.symm.trans hb)

/-! ## The order of the keys -/

/-- A node is filed before another: by the keys, and by the names where these are equal. -/
def FiledBefore (weight : BcNode → Int) (a b : BcNode) : Prop := weight a < weight b ∨ weight a = weight b ∧ a.name < b.name

theorem FiledBefore.asymm {weight : BcNode → Int} {a b : BcNode} (h : FiledBefore weight a b) : ¬ FiledBefore weight b a := by
  rintro (h' | ⟨hw', h'⟩) <;> rcases h with h | ⟨hw, h⟩
  · omega
  · omega
  · omega
  · exact String.lt_asymm h h'

/-- Of two nodes with different names one is filed before the other. -/
theorem filedBefore_or {a b : BcNode} (weight : BcNode → Int) (h : a.name ≠ b.name) :
    FiledBefore weight a b ∨ FiledBefore weight b a := by
  rcases lt_trichotomy (weight a) (weight b) with hw | hw | hw
  · exact .inl (.inl hw)
  · rcases lt_trichotomy a.name b.name with hn | hn | hn
    · exact .inl (.inr ⟨hw, hn⟩)
    · exact absurd hn h
    · exact .inr (.inr ⟨hw.symm, hn⟩)
  · exact .inr (.inl hw)

/-- The ranking has the nodes in the order in which they are filed. -/
theorem pairwise_rank (weight : BcNode → Int) (ns : List BcNode) : (rank weight ns).Pairwise (FiledBefore weight) := by
  have hfiled : ∀ x ∈ (byWeight weight ns).toList, ∀ y ∈ x.2.toList, weight y.2 = x.1 ∧ y.2.name = y.1 := by
    intro x hx y hy
    have hm := Std.ExtTreeMap.mem_toList_iff_getElem?_eq_some.1 hx
    have hn := Std.ExtTreeMap.mem_toList_iff_getElem?_eq_some.1 hy
    refine (@mem_of_filed _ ns x.1 y.1 _ ?_).2
    unfold filed
    rw [hm]
    exact hn
  rw [rank_eq, List.pairwise_flatMap]
  constructor
  · intro x hx
    rw [List.pairwise_map]
    refine (Std.ExtTreeMap.ordered_keys_toList (t := x.2)).imp_of_mem ?_
    intro y z hy hz hlt
    right
    obtain ⟨hwy, hny⟩ := hfiled x hx y hy
    obtain ⟨hwz, hnz⟩ := hfiled x hx z hz
    rw [hwy, hwz, hny, hnz]
    exact ⟨rfl, compareOfLessAndEq_eq_lt.1 hlt⟩
  · refine (Std.ExtTreeMap.ordered_keys_toList (t := byWeight weight ns)).imp_of_mem ?_
    intro x y hx hy hlt a ha b hb
    obtain ⟨p, hp, rfl⟩ := List.mem_map.1 ha
    obtain ⟨q, hq, rfl⟩ := List.mem_map.1 hb
    left
    rw [(hfiled x hx p hp).1, (hfiled y hy q hq).1]
    exact Std.compare_eq_lt.1 hlt

/-- The numbers are in the order in which the nodes are filed. -/
theorem position_lt_iff {weight : BcNode → Int} (hn : (ns.map (·.name)).Nodup)
    (hm : m.positionOfNode = positions ((rank weight ns).map (·.name))) {a b : BcNode} (ha : a ∈ ns) (hb : b ∈ ns) :
    m.position a.name < m.position b.name ↔ FiledBefore weight a b := by
  have hp := rank_perm weight hn
  have hnames : ((rank weight ns).map (·.name)).Nodup := (hp.map _).nodup_iff.2 hn
  have hpos : ∀ n ∈ ns, (rank weight ns)[m.position n.name]? = some n := by
    intro n h
    obtain ⟨i, -, hi⟩ := (numbered_of_perm hp hn hm).number n h
    have hpos : m.position n.name = i := by
      unfold BlockMetaFull.position
      rw [hi]
      rfl
    rw [hm, positions_eq hnames, List.getElem?_map] at hi
    obtain ⟨n', hn', hname⟩ := Option.map_eq_some_iff.1 hi
    have hmem : n' ∈ ns := hp.mem_iff.1 (List.mem_of_getElem? hn')
    rw [hpos, hn', List.inj_on_of_nodup_map hn hmem h hname]
  have hbefore : ∀ a ∈ ns, ∀ b ∈ ns, m.position a.name < m.position b.name → FiledBefore weight a b := by
    intro a ha b hb hlt
    obtain ⟨hla, hea⟩ := List.getElem?_eq_some_iff.1 (hpos a ha)
    obtain ⟨hlb, heb⟩ := List.getElem?_eq_some_iff.1 (hpos b hb)
    have h := List.pairwise_iff_getElem.1 (pairwise_rank weight ns) _ _ hla hlb hlt
    rwa [hea, heb] at h
  refine ⟨hbefore a ha b hb, fun h => ?_⟩
  rcases lt_trichotomy (m.position a.name) (m.position b.name) with hlt | heq | hgt
  · exact hlt
  · obtain rfl : a = b := Option.some.inj ((hpos a ha).symm.trans (heq ▸ hpos b hb))
    exact absurd h h.asymm
  · exact absurd (hbefore b hb a ha hgt) h.asymm

/-! ## The ratios -/

/-- The ticket of a node: the first 64 bits of the digest of its seed. -/
def NodeSt.ticket (Γ : NodeCtx) (s : NodeSt) (win : Int) (n : BcNode) : Nat := Γ.weight (s.seed win n.name)

/-- The stake of a node as an unsigned number. -/
def BcNode.stake (n : BcNode) : Nat := n.getFullStake.toNat

/-- The numbers are in the order of the ratios of ticket and stake. -/
structure Ordered (Γ : NodeCtx) (s : NodeSt) (win : Int) (ns : List BcNode) (m : BlockMetaFull) : Prop where
  /-- A smaller ratio comes first. -/
  ratio : ∀ a ∈ ns, ∀ b ∈ ns, s.ticket Γ win a * b.stake < s.ticket Γ win b * a.stake → m.position a.name < m.position b.name
  /-- Nodes of the same ratio are in the order of their names. -/
  name : ∀ a ∈ ns, ∀ b ∈ ns, s.ticket Γ win a * b.stake = s.ticket Γ win b * a.stake →
    (m.position a.name < m.position b.name ↔ a.name < b.name)
  /-- A node without stake comes after those that have some. -/
  staked : ∀ a ∈ ns, ∀ b ∈ ns, 0 < a.stake → b.stake = 0 → m.position a.name < m.position b.name

/-- An unsigned number as a key comes before another, or is the same and the name comes before the other name. -/
def KeyBefore (x y : Nat) (a b : String) : Prop := wrap64 x < wrap64 y ∨ x = y ∧ a < b

/-- What the keys of two nodes have to be like so that they do not put the nodes out of order. -/
structure FaithfulRank (Γ : NodeCtx) (s : NodeSt) (win : Int) (a b : BcNode) : Prop where
  /-- Where the quotients of different ratios are the same, the smaller ratio has the smaller name; and no key is negative when
  the one of the smaller ratio is not. -/
  ratio : 0 < a.stake → 0 < b.stake → s.ticket Γ win a * b.stake < s.ticket Γ win b * a.stake →
    (s.ticket Γ win a / a.stake = s.ticket Γ win b / b.stake → a.name < b.name) ∧
      ¬ (s.ticket Γ win a / a.stake < 2 ^ 63 ∧ 2 ^ 63 ≤ s.ticket Γ win b / b.stake)
  /-- The ticket of a node without stake is not before the quotient of one that has some. -/
  staked : 0 < a.stake → b.stake = 0 →
    KeyBefore (s.ticket Γ win a / a.stake) (s.ticket Γ win b) a.name b.name ∧ (s.ticket Γ win b = 0 → a.name < b.name)
  /-- The tickets of nodes without stake are in the order of the names. -/
  unstaked : a.stake = 0 → b.stake = 0 → a.name < b.name → KeyBefore (s.ticket Γ win a) (s.ticket Γ win b) a.name b.name

/-- The quotient that a node is filed under. -/
def NodeSt.quotient (Γ : NodeCtx) (s : NodeSt) (win : Int) (n : BcNode) : Nat :=
  if n.stake = 0 then s.ticket Γ win n else s.ticket Γ win n / n.stake

theorem weightOf_eq {n : BcNode} (h0 : 0 ≤ n.getFullStake) (h1 : n.getFullStake < 2 ^ 63) :
    s.weightOf Γ win n = wrap64 (s.quotient Γ win n) := by
  have hstake : n.getFullStake = n.stake := by
    unfold BcNode.stake
    omega
  unfold NodeSt.weightOf NodeSt.quotient NodeSt.ticket
  dsimp only
  by_cases hz : n.stake = 0
  · rw [if_pos hz, if_pos (by omega)]
  · rw [if_neg hz, if_neg (by omega), Int.emod_eq_of_lt h0 (by omega), hstake]
    rfl

theorem quotient_lt (hw : ∀ t, Γ.weight t < 2 ^ 64) (n : BcNode) : s.quotient Γ win n < 2 ^ 64 := by
  have ht : s.ticket Γ win n < 2 ^ 64 := hw _
  unfold NodeSt.quotient
  split
  · exact ht
  · exact (Nat.div_le_self _ _).trans_lt ht

/-- The key of an unsigned number. -/
theorem wrap64_natCast {x : Nat} (h : x < 2 ^ 64) : wrap64 x = if x < 2 ^ 63 then (x : Int) else x - 2 ^ 64 := by
  unfold wrap64
  rw [Int.bmod_def]
  split <;> split <;> omega

theorem wrap64_inj {x y : Nat} (hx : x < 2 ^ 64) (hy : y < 2 ^ 64) (h : wrap64 x = wrap64 y) : x = y := by
  rw [wrap64_natCast hx, wrap64_natCast hy] at h
  split at h <;> split at h <;> omega

/-- The order of two nodes, by their quotients. -/
theorem filedBefore_iff (hw : ∀ t, Γ.weight t < 2 ^ 64) {a b : BcNode} (ha : 0 ≤ a.getFullStake ∧ a.getFullStake < 2 ^ 63)
    (hb : 0 ≤ b.getFullStake ∧ b.getFullStake < 2 ^ 63) :
    FiledBefore (s.weightOf Γ win) a b ↔ KeyBefore (s.quotient Γ win a) (s.quotient Γ win b) a.name b.name := by
  unfold FiledBefore KeyBefore
  rw [weightOf_eq ha.1 ha.2, weightOf_eq hb.1 hb.2]
  constructor
  · rintro (h | ⟨h, hn⟩)
    · exact .inl h
    · exact .inr ⟨wrap64_inj (quotient_lt hw a) (quotient_lt hw b) h, hn⟩
  · rintro (h | ⟨h, hn⟩)
    · exact .inl h
    · exact .inr ⟨by rw [h], hn⟩

/-- A smaller ratio has no larger quotient. -/
theorem div_le_div_of_ratio {x y p q : Nat} (hp : 0 < p) (hq : 0 < q) (h : x * q ≤ y * p) : x / p ≤ y / q := by
  rw [Nat.le_div_iff_mul_le hq]
  have h1 : x / p * p ≤ x := Nat.div_mul_le_self x p
  have h2 : x / p * p * q ≤ x * q := Nat.mul_le_mul_right q h1
  have h3 : x / p * q * p ≤ y * p := by
    calc x / p * q * p = x / p * p * q := by ring
      _ ≤ x * q := h2
      _ ≤ y * p := h
  exact Nat.le_of_mul_le_mul_right h3 hp

/-- Quotients in order are keys in order, unless the first is not negative and the second is. -/
theorem keyBefore_of_le {x y : Nat} {a b : String} (hy : y < 2 ^ 64) (h : x ≤ y) :
    KeyBefore x y a b ↔ (x = y → a < b) ∧ ¬ (x < 2 ^ 63 ∧ 2 ^ 63 ≤ y) := by
  have hx : x < 2 ^ 64 := by omega
  unfold KeyBefore
  rw [wrap64_natCast hx, wrap64_natCast hy]
  constructor
  · rintro (hlt | ⟨rfl, hn⟩)
    · refine ⟨fun he => ?_, fun ⟨h1, h2⟩ => ?_⟩
      · subst he
        exact absurd hlt (lt_irrefl _)
      · rw [if_pos h1, if_neg (by omega)] at hlt
        omega
    · exact ⟨fun _ => hn, fun ⟨h1, h2⟩ => absurd h2 (by omega)⟩
  · rintro ⟨hn, hs⟩
    by_cases he : x = y
    · exact .inr ⟨he, hn he⟩
    · left
      split <;> split <;> omega

theorem keyBefore_self {x : Nat} {a b : String} : KeyBefore x x a b ↔ a < b := by
  unfold KeyBefore
  simp

theorem quotient_of_staked {n : BcNode} (h : 0 < n.stake) : s.quotient Γ win n = s.ticket Γ win n / n.stake := by
  unfold NodeSt.quotient
  rw [if_neg (by omega)]

theorem quotient_of_unstaked {n : BcNode} (h : n.stake = 0) : s.quotient Γ win n = s.ticket Γ win n := by
  unfold NodeSt.quotient
  rw [if_pos h]

/-- The numbers are in the order of the ratios if, and only if, the keys of no two nodes put them out of order. -/
theorem ordered_iff (hw : ∀ t, Γ.weight t < 2 ^ 64)
    (hpos : ∀ a ∈ ns, ∀ b ∈ ns, m.position a.name < m.position b.name ↔
      KeyBefore (s.quotient Γ win a) (s.quotient Γ win b) a.name b.name) :
    Ordered Γ s win ns m ↔ ∀ a ∈ ns, ∀ b ∈ ns, FaithfulRank Γ s win a b := by
  -- nodes that have stake, with the smaller ratio first
  have hratio : ∀ a ∈ ns, ∀ b ∈ ns, 0 < a.stake → 0 < b.stake →
      s.ticket Γ win a * b.stake < s.ticket Γ win b * a.stake → (m.position a.name < m.position b.name ↔
        (s.ticket Γ win a / a.stake = s.ticket Γ win b / b.stake → a.name < b.name) ∧
          ¬ (s.ticket Γ win a / a.stake < 2 ^ 63 ∧ 2 ^ 63 ≤ s.ticket Γ win b / b.stake)) := by
    intro a ha b hb hsa hsb hlt
    have hle := div_le_div_of_ratio hsa hsb hlt.le
    rw [hpos a ha b hb, quotient_of_staked hsa, quotient_of_staked hsb]
    refine keyBefore_of_le ?_ hle
    rw [← quotient_of_staked hsb]
    exact quotient_lt hw b
  constructor
  · intro h a ha b hb
    constructor
    · intro hsa hsb hlt
      exact (hratio a ha b hb hsa hsb hlt).1 (h.ratio a ha b hb hlt)
    · intro hsa hsb
      have hkey := (hpos a ha b hb).1 (h.staked a ha b hb hsa hsb)
      rw [quotient_of_staked hsa, quotient_of_unstaked hsb] at hkey
      refine ⟨hkey, fun hzero => ?_⟩
      have heven : s.ticket Γ win a * b.stake = s.ticket Γ win b * a.stake := by rw [hsb, hzero, Nat.mul_zero, Nat.zero_mul]
      exact (h.name a ha b hb heven).1 (h.staked a ha b hb hsa hsb)
    · intro hsa hsb hn
      have heven : s.ticket Γ win a * b.stake = s.ticket Γ win b * a.stake := by rw [hsa, hsb, Nat.mul_zero, Nat.mul_zero]
      have hkey := (hpos a ha b hb).1 ((h.name a ha b hb heven).2 hn)
      rwa [quotient_of_unstaked hsa, quotient_of_unstaked hsb] at hkey
  · intro h
    have hstaked : ∀ a ∈ ns, ∀ b ∈ ns, 0 < a.stake → b.stake = 0 → m.position a.name < m.position b.name := by
      intro a ha b hb hsa hsb
      rw [hpos a ha b hb, quotient_of_staked hsa, quotient_of_unstaked hsb]
      exact ((h a ha b hb).staked hsa hsb).1
    have hunstaked : ∀ a ∈ ns, ∀ b ∈ ns, a.stake = 0 → b.stake = 0 → a.name < b.name →
        m.position a.name < m.position b.name := by
      intro a ha b hb hsa hsb hn
      rw [hpos a ha b hb, quotient_of_unstaked hsa, quotient_of_unstaked hsb]
      exact (h a ha b hb).unstaked hsa hsb hn
    constructor
    · intro a ha b hb hlt
      have hsa : 0 < a.stake := Nat.pos_of_ne_zero fun hz => by simp [hz] at hlt
      rcases Nat.eq_zero_or_pos b.stake with hsb | hsb
      · exact hstaked a ha b hb hsa hsb
      · exact (hratio a ha b hb hsa hsb hlt).2 ((h a ha b hb).ratio hsa hsb hlt)
    · intro a ha b hb heven
      rcases Nat.eq_zero_or_pos a.stake with hsa | hsa <;> rcases Nat.eq_zero_or_pos b.stake with hsb | hsb
      · refine ⟨fun hlt => ?_, hunstaked a ha b hb hsa hsb⟩
        rcases lt_trichotomy a.name b.name with hn | hn | hn
        · exact hn
        · rw [hn] at hlt
          exact absurd hlt (lt_irrefl _)
        · have hgt := hunstaked b hb a ha hsb hsa hn
          omega
      · have hgt := hstaked b hb a ha hsb hsa
        have hzero : s.ticket Γ win a = 0 := by
          rw [hsa, Nat.mul_zero] at heven
          exact (Nat.mul_eq_zero.1 heven).resolve_right (by omega)
        have hn := ((h b hb a ha).staked hsb hsa).2 hzero
        exact iff_of_false (by omega) (String.lt_asymm hn)
      · have hlt := hstaked a ha b hb hsa hsb
        have hzero : s.ticket Γ win b = 0 := by
          rw [hsb, Nat.mul_zero] at heven
          exact (Nat.mul_eq_zero.1 heven.symm).resolve_right (by omega)
        exact iff_of_true hlt (((h a ha b hb).staked hsa hsb).2 hzero)
      · have hquot : s.ticket Γ win a / a.stake = s.ticket Γ win b / b.stake :=
          Nat.le_antisymm (div_le_div_of_ratio hsa hsb heven.le) (div_le_div_of_ratio hsb hsa heven.ge)
        rw [hpos a ha b hb, quotient_of_staked hsa, quotient_of_staked hsb, hquot, keyBefore_self]
    · exact hstaked

theorem getFullStake_lt (n : BcNode) : n.getFullStake < 2 ^ 63 := by
  unfold BcNode.getFullStake
  rcases List.eq_nil_or_concat n.stakes.toList with h | ⟨l, z, h⟩
  · rw [h]
    norm_num
  · rw [h, List.concat_eq_append, List.foldl_append]
    exact Int.bmod_lt (by norm_num)

/-- For a window that is not in the cache, `getMetaFull` numbers the enabled nodes, and the numbers are in the order of the ratios
of ticket and stake if, and only if, the keys of no two nodes put them out of order. -/
theorem getMetaFull_ranks (Γ : NodeCtx) (s : NodeSt) (ti : Int) (m : BlockMetaFull) (ns : List BcNode)
    (hw : ∀ t, Γ.weight t < 2 ^ 64) (h : (runNode (getMetaFull Γ ti) s).1 = .ok m)
    (hmiss : s.metaAt s.prevRootHashZ (window ti) = none) (hns : (runEff Γ.ctx (enabledNodes Γ.ctx) s.st).1 = .ok ns)
    (hn : (ns.map (·.name)).Nodup) (hstake : ∀ n ∈ ns, 0 ≤ n.getFullStake) :
    Numbered ns m ∧ (Ordered Γ s (window ti) ns m ↔ ∀ a ∈ ns, ∀ b ∈ ns, FaithfulRank Γ s (window ti) a b) := by
  unfold getMetaFull at h
  rw [runNode_get_bind, hmiss] at h
  obtain ⟨x, hx⟩ := metaRun_of_ok h
  obtain rfl := Except.ok.inj (hx.nodes.symm.trans hns)
  have hpositions : m.positionOfNode = positions ((rank (s.weightOf Γ (window ti)) x.ns).map (·.name)) := by
    rw [hx.result]
    exact (positionOfNode_relaxedCommittee _ _ _ _ _).trans (positionOfNode_foldl_enrol _ _)
  refine ⟨numbered_of_perm (rank_perm _ hn) hn hpositions, ordered_iff hw fun a ha b hb => ?_⟩
  rw [position_lt_iff hn hpositions ha hb]
  exact filedBefore_iff hw ⟨hstake a ha, getFullStake_lt a⟩ ⟨hstake b hb, getFullStake_lt b⟩

/-! ## Three nodes with large stakes -/

namespace Sample

/-- The tickets of the three nodes in one window. -/
def tickets (seed : String) : Nat :=
  match seed with
  | "m176000009" => 2578179320723867351
  | "n176000009" => 2169710231397853406
  | "o176000009" => 15983154977704424158
  | _ => 0

/-- The world of a node of the network. -/
def richCtx : NodeCtx := { nodeCtx "o" with weight := tickets }

/-- The three nodes, each with a stake of 10¹⁸. -/
def richSt : NodeSt where
  st := genesis (nodeCtx "").ctx { nodeFile with nodes := nodeFile.nodes.map fun n => { n with stake := 10 ^ 18 } }

theorem tickets_lt (t : String) : tickets t < 2 ^ 64 := by
  unfold tickets
  split <;> norm_num

/-- What the first call for the window has to do with. -/
theorem rich_run : ∃ m ns, (runNode (getMetaFull richCtx 1760000090) richSt).1 = .ok m ∧
    (runEff richCtx.ctx (enabledNodes richCtx.ctx) richSt.st).1 = .ok ns ∧
    m.position "m" < m.position "n" ∧ ns.map (fun n => (n.name, n.getFullStake)) = [("m", 10 ^ 18), ("n", 10 ^ 18), ("o", 10 ^ 18)] := by
  have hruns : (runNode (getMetaFull richCtx 1760000090) richSt).1.map (fun m => decide (m.position "m" < m.position "n")) = .ok true ∧
      (runEff richCtx.ctx (enabledNodes richCtx.ctx) richSt.st).1.map (fun ns => ns.map fun n => (n.name, n.getFullStake)) =
        .ok [("m", 10 ^ 18), ("n", 10 ^ 18), ("o", 10 ^ 18)] := by
    decide +kernel
  obtain ⟨hm, hns⟩ := hruns
  cases hrun : (runNode (getMetaFull richCtx 1760000090) richSt).1 with
  | error e =>
    rw [hrun] at hm
    cases hm
  | ok m =>
    cases hnodes : (runEff richCtx.ctx (enabledNodes richCtx.ctx) richSt.st).1 with
    | error e =>
      rw [hnodes] at hns
      cases hns
    | ok ns =>
      rw [hrun] at hm
      rw [hnodes] at hns
      exact ⟨m, ns, rfl, rfl, of_decide_eq_true (Except.ok.inj hm), Except.ok.inj hns⟩

end Sample

open Sample in
/-- The quotients of two of the nodes are the same, and the one with the smaller ratio comes second. -/
theorem getMetaFull_ranks_false : ∃ m ns, (runNode (getMetaFull richCtx 1760000090) richSt).1 = .ok m ∧
    (runEff richCtx.ctx (enabledNodes richCtx.ctx) richSt.st).1 = .ok ns ∧
    ns.map (fun n => (n.name, n.getFullStake)) = [("m", 10 ^ 18), ("n", 10 ^ 18), ("o", 10 ^ 18)] ∧
    ¬ Ordered richCtx richSt (window 1760000090) ns m := by
  obtain ⟨m, ns, hm, hns, hlt, hlist⟩ := rich_run
  refine ⟨m, ns, hm, hns, hlist, fun h => ?_⟩
  have hnode : ∀ p ∈ [("m", (10 : Int) ^ 18), ("n", 10 ^ 18), ("o", 10 ^ 18)], ∃ n ∈ ns, (n.name, n.getFullStake) = p := by
    intro p hp
    rw [← hlist] at hp
    exact List.mem_map.1 hp
  obtain ⟨a, ha, hpa⟩ := hnode ("m", 10 ^ 18) (by simp)
  obtain ⟨b, hb, hpb⟩ := hnode ("n", 10 ^ 18) (by simp)
  obtain ⟨hna, hsa⟩ := Prod.mk.inj hpa
  obtain ⟨hnb, hsb⟩ := Prod.mk.inj hpb
  have hratio : richSt.ticket richCtx (window 1760000090) b * a.stake < richSt.ticket richCtx (window 1760000090) a * b.stake := by
    unfold NodeSt.ticket NodeSt.seed BcNode.stake
    rw [hna, hnb, hsa, hsb]
    decide +kernel
  have hgt := h.ratio b hb a ha hratio
  rw [hna, hnb] at hgt
  omega

open Sample in
theorem getMetaFull_ranks_sample : ∃ m ns, (runNode (getMetaFull richCtx 1760000090) richSt).1 = .ok m ∧
    (runEff richCtx.ctx (enabledNodes richCtx.ctx) richSt.st).1 = .ok ns ∧ Numbered ns m ∧
    (Ordered richCtx richSt (window 1760000090) ns m ↔ ∀ a ∈ ns, ∀ b ∈ ns, FaithfulRank richCtx richSt (window 1760000090) a b) := by
  obtain ⟨m, ns, hm, hns, -, hlist⟩ := rich_run
  have hnames : ns.map (·.name) = ["m", "n", "o"] := by
    have hfst := congrArg (List.map Prod.fst) hlist
    rwa [List.map_map] at hfst
  have hnodup : (ns.map (·.name)).Nodup := by
    rw [hnames]
    decide
  have hstake : ∀ n ∈ ns, 0 ≤ n.getFullStake := by
    intro n hn
    have hmem : (n.name, n.getFullStake) ∈ ns.map (fun n => (n.name, n.getFullStake)) := List.mem_map_of_mem hn
    rw [hlist] at hmem
    simp only [List.mem_cons, Prod.mk.injEq, List.not_mem_nil, or_false] at hmem
    omega
  have hmiss : richSt.metaAt richSt.prevRootHashZ (window 1760000090) = none := by simp [NodeSt.metaAt, richSt]
  exact ⟨m, ns, hm, hns, getMetaFull_ranks richCtx richSt 1760000090 m ns tickets_lt hm hmiss hns hnodup hstake⟩

end Grain
