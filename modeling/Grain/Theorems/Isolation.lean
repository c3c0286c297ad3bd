import Grain.Genesis

/-!
# The names of leaves

A leaf is found under the digest of its name, and the name is put together from a kind and identifiers without lengths. The
kinds cannot be mistaken for one another, since the names of contracts and nodes have no capital letters and no blanks; two
granules can, since a contract's name may contain the underscore that ends it in the name of a granule.
-/

namespace Grain

open Eff

/-- The check of `contract_deploy` and `node_create` lets the name through. -/
def AcceptsName (n : String) : Prop := checkNameChars n.toList = pure ()

/-- The identifiers are ones the code can form: names that the commands accept, addresses of 32 bytes, any granule key. -/
def Name.Admissible : Name → Prop
  | .addressState addr => addr.length = 32
  | .contract n | .contractData n _ | .contractBalance n | .contractActivity n | .node n => AcceptsName n
  | .state | .nodeList | .values | .votes => True

/-- Two granules of contracts of which one has the other's name continued after an underscore, with the continuation at the
beginning of the other's key. -/
def Name.Overlaps : Name → Name → Prop
  | .contractData c k, .contractData c' k' =>
    ∃ u, (c' = c ++ "_" ++ u ∧ k = u ++ "_" ++ k') ∨ (c = c' ++ "_" ++ u ∧ k' = u ++ "_" ++ k)
  | _, _ => False

/-- A name that is accepted has no capital letters. -/
theorem not_isUpper_of_checkNameChars {l : List Char} (h : checkNameChars l = pure ()) : ∀ z ∈ l, z.isUpper = false := by
  induction l with
  | nil => exact nofun
  | cons a l ih =>
    unfold checkNameChars failIf at h
    split at h
    · nomatch h
    · split at h
      · nomatch h
      · rename_i ha
        intro z hz
        rcases List.mem_cons.1 hz with rfl | hz
        · simpa using ha
        · exact ih h z hz

/-! ## The kinds -/

/-- The part of a name that its kind determines. -/
def Name.head : Name → String
  | .addressState _ => "USER_STATE_"
  | .contract _ => "CONTRACT_"
  | .contractData _ _ => "CONTRACT_DATA_"
  | .node _ => "NODE_"
  | .contractBalance _ => "CONTRACT_BALANCE_"
  | .contractActivity _ => "CONTRACT_ACTIVITY_"
  | .state => "STATE"
  | .nodeList => "NODE LIST"
  | .values => "VALUES"
  | .votes => "VOTES"

/-- The part of a name that its identifiers determine. -/
def Name.rest : Name → String
  | .addressState a => a
  | .contract n | .node n | .contractBalance n | .contractActivity n => n
  | .contractData c k => c ++ ("_" ++ k)
  | .state | .nodeList | .values | .votes => ""

theorem Name.text_eq (n : Name) : n.text = n.head ++ n.rest := by
  cases n with
  | contractData c k =>
    change "CONTRACT_DATA_" ++ c ++ "_" ++ k = "CONTRACT_DATA_" ++ (c ++ ("_" ++ k))
    rw [String.append_assoc, String.append_assoc]
  | state | nodeList | values | votes => exact String.append_empty.symm
  | _ => rfl

/-- The heads of the ten kinds. -/
def heads : List String :=
  ["USER_STATE_", "CONTRACT_", "CONTRACT_DATA_", "NODE_", "CONTRACT_BALANCE_", "CONTRACT_ACTIVITY_", "STATE", "NODE LIST",
    "VALUES", "VOTES"]

theorem Name.head_mem (n : Name) : n.head ∈ heads := by
  cases n <;> simp [head, heads]

/-- Of two different heads of which one begins with the other, the shorter is that of a contract, and the longer goes on with a
capital letter. -/
theorem heads_apart : ∀ a ∈ heads, ∀ b ∈ heads, a.toList <+: b.toList →
    a = b ∨ (a = "CONTRACT_" ∧ (b.toList.drop a.toList.length).head?.any Char.isUpper = true) := by
  have h : (heads.all fun a => heads.all fun b => !(a.toList.isPrefixOf b.toList) || (a == b ||
      (a == "CONTRACT_" && (b.toList.drop a.toList.length).head?.any Char.isUpper))) = true := by
    decide +kernel
  intro a ha b hb hp
  have hab := List.all_eq_true.1 (List.all_eq_true.1 h a ha) b hb
  rw [List.isPrefixOf_iff_prefix.2 hp, Bool.not_true, Bool.false_or, Bool.or_eq_true, Bool.and_eq_true, beq_iff_eq,
    beq_iff_eq] at hab
  exact hab

/-- Only the leaf of a contract has the head of contracts. -/
theorem Name.rest_of_contract {n : Name} (h : n.head = "CONTRACT_") : ∃ c, n = .contract c := by
  cases n with
  | contract c => exact ⟨c, rfl⟩
  | _ => exact absurd h (by simp [head])

/-- A head that is the beginning of another and is followed by an accepted name cannot be mistaken for it. -/
theorem Name.head_eq_of_starts {n m : Name} (hn : n.Admissible) (ht : n.text = m.text)
    (hp : n.head.toList <+: m.head.toList) : n.head = m.head := by
  rcases heads_apart _ n.head_mem _ m.head_mem hp with h | ⟨hc, hu⟩
  · exact h
  · exfalso
    obtain ⟨c, rfl⟩ := rest_of_contract hc
    obtain ⟨t, ht'⟩ := hp
    have hl := congrArg String.toList ht
    rw [text_eq, text_eq, String.toList_append, String.toList_append, ← ht', List.append_assoc] at hl
    have hr : c.toList = t ++ m.rest.toList := List.append_cancel_left hl
    rw [← ht', List.drop_left] at hu
    cases t with
    | nil => simp at hu
    | cons z t =>
      have hz : z ∈ c.toList := by rw [hr]; exact List.mem_append_left _ List.mem_cons_self
      have hlow := not_isUpper_of_checkNameChars hn z hz
      have hup : z.isUpper = true := by simpa using hu
      rw [hlow] at hup
      nomatch hup

theorem Name.head_eq_of_text_eq {n m : Name} (hn : n.Admissible) (hm : m.Admissible) (ht : n.text = m.text) :
    n.head = m.head := by
  have hl := congrArg String.toList ht
  rw [text_eq, text_eq, String.toList_append, String.toList_append] at hl
  have hpn : n.head.toList <+: m.head.toList ++ m.rest.toList := ⟨_, hl⟩
  have hpm : m.head.toList <+: m.head.toList ++ m.rest.toList := ⟨_, rfl⟩
  rcases List.prefix_or_prefix_of_prefix hpn hpm with h | h
  · exact head_eq_of_starts hn ht h
  · exact (head_eq_of_starts hm ht.symm h).symm

/-! ## Two granules -/

/-- What is left of a part that is cut at an underscore. -/
theorem eq_join {a b : String} {u : List Char} (h : a.toList = b.toList ++ '_' :: u) : a = b ++ "_" ++ String.ofList u := by
  apply String.toList_inj.1
  simp [h, String.toList_append]

/-- Two texts joined at an underscore that are equal are joined at the same place, or the one is cut inside a part of the
other. -/
theorem cut_of_join_eq {c k c' k' : String} (h : c ++ ("_" ++ k) = c' ++ ("_" ++ k')) :
    (c = c' ∧ k = k') ∨ (Name.contractData c k).Overlaps (.contractData c' k') := by
  have hl : c.toList ++ '_' :: k.toList = c'.toList ++ '_' :: k'.toList := by
    have := congrArg String.toList h
    simpa [String.toList_append] using this
  rcases List.append_eq_append_iff.1 hl with ⟨u, hc, hk⟩ | ⟨u, hc, hk⟩
  · cases u with
    | nil =>
      rw [List.append_nil] at hc
      rw [List.nil_append] at hk
      exact .inl ⟨(String.toList_inj.1 hc).symm, String.toList_inj.1 (List.cons.inj hk).2⟩
    | cons z u =>
      obtain rfl := (List.cons.inj hk).1
      have hk : k = String.ofList u ++ "_" ++ k' := by
        have he : k.toList = (String.ofList u).toList ++ '_' :: k'.toList := by rw [String.toList_ofList]; exact (List.cons.inj hk).2
        rw [eq_join he, String.ofList_toList]
      exact .inr ⟨String.ofList u, .inl ⟨eq_join hc, hk⟩⟩
  · cases u with
    | nil =>
      rw [List.append_nil] at hc
      rw [List.nil_append] at hk
      exact .inl ⟨String.toList_inj.1 hc, (String.toList_inj.1 (List.cons.inj hk).2).symm⟩
    | cons z u =>
      obtain rfl := (List.cons.inj hk).1
      have hk : k' = String.ofList u ++ "_" ++ k := by
        have he : k'.toList = (String.ofList u).toList ++ '_' :: k.toList := by rw [String.toList_ofList]; exact (List.cons.inj hk).2
        rw [eq_join he, String.ofList_toList]
      exact .inr ⟨String.ofList u, .inr ⟨eq_join hc, hk⟩⟩

/-- Granules that overlap are two granules of one text. -/
theorem Name.Overlaps.text_eq {n m : Name} (h : n.Overlaps m) : n ≠ m ∧ n.text = m.text := by
  have longer : ∀ c u : String, c ≠ c ++ "_" ++ u := by
    intro c u hc
    have hlen := congrArg String.length hc
    rw [String.length_append, String.length_append] at hlen
    have h1 : ("_" : String).length = 1 := rfl
    omega
  cases n with
  | contractData c k =>
    cases m with
    | contractData c' k' =>
      obtain ⟨u, ⟨rfl, rfl⟩ | ⟨rfl, rfl⟩⟩ := h
      · constructor
        · intro he
          exact longer c u (Name.contractData.inj he).1
        · rw [Name.text_eq, Name.text_eq]
          change "CONTRACT_DATA_" ++ (c ++ ("_" ++ (u ++ "_" ++ k'))) = "CONTRACT_DATA_" ++ (c ++ "_" ++ u ++ ("_" ++ k'))
          simp only [String.append_assoc]
      · constructor
        · intro he
          exact longer c' u (Name.contractData.inj he).1.symm
        · rw [Name.text_eq, Name.text_eq]
          change "CONTRACT_DATA_" ++ (c' ++ "_" ++ u ++ ("_" ++ k)) = "CONTRACT_DATA_" ++ (c' ++ ("_" ++ (u ++ "_" ++ k)))
          simp only [String.append_assoc]
    | _ => exact h.elim
  | _ => exact h.elim

/-- Two names of one kind with the same identifiers are equal, unless they are overlapping granules. -/
theorem Name.eq_or_overlaps {n m : Name} (hh : n.head = m.head) (hr : n.rest = m.rest) : n = m ∨ n.Overlaps m := by
  cases n <;> cases m
  case contractData.contractData c k c' k' =>
    rcases cut_of_join_eq hr with ⟨rfl, rfl⟩ | h
    · exact .inl rfl
    · exact .inr h
  case addressState.addressState | contract.contract | node.node | contractBalance.contractBalance
      | contractActivity.contractActivity => exact .inl (congrArg _ hr)
  case state.state | nodeList.nodeList | values.values | votes.votes => exact .inl rfl
  all_goals exact absurd hh (by simp [Name.head])

/-! ## Isolation -/

/-- The digests of two different names differ unless the names are of overlapping granules, and then they are the same. -/
theorem leaves_isolated (Γ : Ctx) {n m : Name} (hn : n.Admissible) (hm : m.Admissible) :
    (n ≠ m → n.text ≠ m.text ∧ Γ.path n.text ≠ Γ.path m.text) ↔ ¬ n.Overlaps m := by
  constructor
  · intro h ho
    obtain ⟨hne, ht⟩ := ho.text_eq
    exact (h hne).1 ht
  · intro ho hne
    have ht : n.text ≠ m.text := by
      intro ht
      have hh := Name.head_eq_of_text_eq hn hm ht
      rw [Name.text_eq, Name.text_eq, hh] at ht
      have hr : n.rest = m.rest := (String.append_right_inj _).1 ht
      exact (Name.eq_or_overlaps hh hr).elim hne ho
    exact ⟨ht, fun hp => ht (Γ.path_inj hp)⟩

/-- Granules of the contracts `token` and `token2`. -/
theorem leaves_isolated_sample : (Name.contractData "token" "a_b").text ≠ (Name.contractData "token2" "a_b").text := by
  have hne : Name.contractData "token" "a_b" ≠ .contractData "token2" "a_b" := by
    intro he
    exact absurd (Name.contractData.inj he).1 (by decide)
  have ho : ¬ (Name.contractData "token" "a_b").Overlaps (.contractData "token2" "a_b") := by
    rintro ⟨u, ⟨h, -⟩ | ⟨h, -⟩⟩
    all_goals
      have hl := congrArg String.toList h
      simp [String.toList_append] at hl
  have ha : (Name.contractData "token" "a_b").Admissible := by unfold Name.Admissible AcceptsName; rfl
  have hb : (Name.contractData "token2" "a_b").Admissible := by unfold Name.Admissible AcceptsName; rfl
  exact ((leaves_isolated (Sample.ctx [] fun _ => none) ha hb).2 ho hne).1

/-- The contracts `a` and `a_b` have a granule in common: `b_c` of the one is `c` of the other. -/
theorem leaves_isolated_false : ¬ ∀ n m : Name, n.Admissible → m.Admissible → n ≠ m → n.text ≠ m.text := by
  intro h
  refine h (.contractData "a" "b_c") (.contractData "a_b" "c") ?_ ?_ ?_ ?_
  · unfold Name.Admissible AcceptsName
    rfl
  · unfold Name.Admissible AcceptsName
    rfl
  · intro he
    exact absurd (Name.contractData.inj he).1 (by decide)
  · decide

end Grain
