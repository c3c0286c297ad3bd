import Grain.Theorems.Fees

/-!
# Gas and tokens

`token_2_gas` turns a limit in tokens into a limit in gas, `gas_2_token` turns the gas used back into tokens, rounded up. The
first multiplies in 128 bits, so its only sum that can leave the range is the product that gives the rate; the second adds the
rate to the gas in 64 bits. The two are inverse, monotone and exact exactly where that product and that sum stay in the range
(`gasLaws_iff`); gas close to `2 ^ 63` is charged one token (`gas_laws_false`).
-/

namespace Grain

/-- The rate `gas_per_token` as both functions compute it. -/
def gasRate (priority base : Int) : Int := (wrap64 (base * (100 - priority))).tdiv 100

/-- What `gas_2_token` computes in 64 bits on the way. -/
def gasSums (gasUsed priority base : Int) : List Int :=
  [100 - priority, base * (100 - priority), gasUsed + gasRate priority base, gasUsed + gasRate priority base - 1]

/-- What is expected of the two conversions at a limit `T` with the gas `G` it gives, and at two amounts of gas `a ≤ b`. -/
structure GasLaws (base priority T G a b : Int) : Prop where
  inverse : gas2Token G priority base = .ok (max T 1)
  monotone : ∃ m n, gas2Token a priority base = .ok m ∧ gas2Token b priority base = .ok n ∧ m ≤ n
  bounded : a ≤ G → ∃ m, gas2Token a priority base = .ok m ∧ m ≤ max T 1
  exact : InI64 G ∧ ∀ gas ∈ [G, a, b], ∀ n ∈ gasSums gas priority base, InI64 n

theorem gas2Token_rate {p base r gas : Int} (hp : 0 ≤ p ∧ p ≤ 99) (hr : gasPerToken p base = .ok r) (h : 0 ≤ gas) :
    gas2Token gas p base = .ok (max 1 ((wrap64 (gas + r - 1)).tdiv r)) := by
  unfold gas2Token
  rw [if_neg (by omega), if_neg (by omega), hr]
  rfl

/-- While the sum fits, the charge is the rounded quotient. -/
theorem gas2Token_exact {p base r gas : Int} (hp : 0 ≤ p ∧ p ≤ 99) (hr : gasPerToken p base = .ok r) (h : 0 ≤ gas)
    (hfits : gas + r ≤ 2 ^ 63 - 1) : gas2Token gas p base = .ok (max 1 ((gas + r - 1) / r)) := by
  have hpos := (gasPerToken_ok hr).2.2
  have hsum : InI64 (gas + r - 1) := by
    unfold InI64
    omega
  rw [gas2Token_rate hp hr h, wrap64_eq hsum, Int.tdiv_eq_ediv_of_nonneg (by omega)]

/-- Rounding up the product gives back the factor. -/
theorem roundUp_mul {T r : Int} (hr : 0 < r) : (T * r + r - 1) / r = T := by
  have hshift : T * r + r - 1 = r - 1 + T * r := by omega
  rw [hshift, Int.add_mul_ediv_right _ _ (by omega), Int.ediv_eq_zero_of_lt (by omega) (by omega), Int.zero_add]

/-- For a limit in tokens that `token_2_gas` takes and any two amounts of gas, the conversions meet their laws exactly if the
product that gives the rate fits, and adding the rate to the gas does. -/
theorem gasLaws_iff {base priority T G a b : Int} (h : token2Gas T priority base = .ok G) (ha : 0 ≤ a) (hab : a ≤ b) :
    GasLaws base priority T G a b ↔
      base * (100 - priority) ≤ 2 ^ 63 - 1 ∧ max G b + base * (100 - priority) / 100 ≤ 2 ^ 63 - 1 := by
  obtain ⟨hp, hT, r, hr, rfl, hG⟩ := token2Gas_ok h
  obtain ⟨hbase, hrate, hpos⟩ := gasPerToken_ok hr
  have hprod : 0 ≤ base * (100 - priority) := Int.mul_nonneg (by omega) (by omega)
  have hgas : 0 ≤ T * r := Int.mul_nonneg hT (by omega)
  -- where the product fits, the rate is the quotient
  have hquot : base * (100 - priority) ≤ 2 ^ 63 - 1 → r = base * (100 - priority) / 100 := by
    intro hfits
    have hin : InI64 (base * (100 - priority)) := by
      unfold InI64
      omega
    rw [hrate, wrap64_eq hin, Int.tdiv_eq_ediv_of_nonneg hprod]
  have hsums : ∀ gas, gasSums gas priority base = [100 - priority, base * (100 - priority), gas + r, gas + r - 1] := by
    intro gas
    unfold gasSums gasRate
    rw [← hrate]
  constructor
  · intro hlaws
    have hexact := hlaws.exact.2
    simp only [hsums] at hexact
    have hfits := (hexact (T * r) (by simp) _ (.tail _ (.head _))).2
    have hsumG := (hexact (T * r) (by simp) _ (.tail _ (.tail _ (.head _)))).2
    have hsumb := (hexact b (by simp) _ (.tail _ (.tail _ (.head _)))).2
    have hr' := hquot (by omega)
    rw [← hr']
    omega
  · rintro ⟨hfits, hsum⟩
    rw [← hquot hfits] at hsum
    have hof : ∀ gas, 0 ≤ gas → gas ≤ max (T * r) b → gas2Token gas priority base = .ok (max 1 ((gas + r - 1) / r)) := by
      intro gas h0 hle
      exact gas2Token_exact hp hr h0 (by omega)
    have hmono : ∀ m n : Int, m ≤ n → max 1 ((m + r - 1) / r) ≤ max 1 ((n + r - 1) / r) := by
      intro m n hmn
      have := Int.ediv_le_ediv hpos (by omega : m + r - 1 ≤ n + r - 1)
      omega
    refine ⟨?_, ⟨_, _, hof a ha (by omega), hof b (by omega) (by omega), hmono a b hab⟩, ?_, ?_⟩
    · rw [hof _ hgas (by omega), roundUp_mul hpos, max_comm]
    · intro hle
      refine ⟨_, hof a ha (by omega), ?_⟩
      have := hmono a (T * r) hle
      rw [roundUp_mul hpos] at this
      omega
    · refine ⟨?_, ?_⟩
      · unfold InI64
        omega
      intro gas hgas' n hn
      rw [hsums] at hn
      have hrange : 0 ≤ gas ∧ gas ≤ max (T * r) b := by
        simp only [List.mem_cons, List.not_mem_nil, or_false] at hgas'
        omega
      simp only [List.mem_cons, List.not_mem_nil, or_false] at hn
      unfold InI64
      omega

/-- The highest limit at the base rate 1000 without priority gives a gas limit that is charged as one token. -/
theorem gas_laws_false :
    ¬ ∀ base priority T G a b : Int, token2Gas T priority base = .ok G → 0 ≤ a → a ≤ b → b ≤ 2 ^ 63 - 1 →
      GasLaws base priority T G a b := by
  intro h
  have hG : token2Gas 9223372036854775 0 1000 = .ok 9223372036854775000 := by rfl
  have hlaws := h 1000 0 9223372036854775 9223372036854775000 0 0 hG (by decide) (by decide) (by decide)
  have hone : gas2Token 9223372036854775000 0 1000 = .ok 1 := by rfl
  have hinverse := hlaws.inverse
  rw [hone] at hinverse
  exact absurd hinverse (by decide)

/-- The laws at a limit of 7 tokens, with the gas 600 and 7000 between the limits. -/
theorem gasLaws_sample : GasLaws 1000 50 7 3500 600 7000 :=
  (gasLaws_iff (by rfl : token2Gas 7 50 1000 = .ok 3500) (by decide) (by decide)).2 ⟨by decide, by decide⟩

end Grain
