import Grain.Route
import Grain.InBuffer
import Mathlib.Data.List.Lex
import Mathlib.Data.Prod.Lex
import Mathlib.Algebra.Order.Group.Unbundled.Int

/-!
# Routes as keys and as bytes

`operator<` is the order of a rank in a linear order, and `operator==` is equality of the ranks. A route without listeners comes
back, and bytes that are accepted give a route that is accepted again; it has as many elements as its length says exactly if no
element is of a kind that `route_t::unpack` passes over (`routeLaws_iff`).
-/

namespace Grain

namespace RouteT

/-- `operator<` is a strict weak order, and `operator==` its equivalence. -/
structure OrderLaws (a b c : RouteT) : Prop where
  irrefl : less a a = false
  asymm : less a b = true → less b a = false
  trans : less a b = true → less b c = true → less a c = true
  equiv : (less a b = false ∧ less b a = false) ↔ same a b = true
  equiv_trans : same a b = true → same b c = true → same a c = true

/-- No element is a listener. -/
def NoListener (r : RouteT) : Prop := ∀ e ∈ r, e.type ≠ 7

/-- What is expected of routes as keys, of a route that is packed, and of bytes that are unpacked. -/
structure Laws (a b c r : RouteT) (s : Buffer) : Prop where
  order : OrderLaws a b c
  back : NoListener r → ∀ q, ∃ r', unpack (pack r ++ q) = some (r', q) ∧ same r' r = true
  accepted : ∀ r' q, unpack s = some (r', q) →
    (∃ n q', getPN s = some (n, q') ∧ r'.length = n) ∧ ∃ r'', unpack (pack r') = some (r'', []) ∧ same r'' r' = true

/-! ## The order -/

/-- The number of an element. -/
def Route.id : Route → Int
  | .localService id => id.1
  | .remoteAddr addr => addr.1
  | .objectHandlerPolled addr => addr.1
  | .socketRoute id => id.1
  | .objectHandlerThreaded addr => addr.1
  | .thread id => id.1
  | .listener id => id.1

/-- An element's place in the order of the elements. -/
def Route.rank (r : Route) : ℤ ×ₗ ℤ := toLex (r.type, r.id)

/-- A route's place in the order that `operator<` reverses. -/
def rank (r : RouteT) : ℕ ×ₗ List (ℤ ×ₗ ℤ) := toLex (r.length, r.map Route.rank)

theorem Route.rank_inj {a r : Route} (h : a.rank = r.rank) : a = r := by
  obtain ⟨htype, hid⟩ := Prod.mk.inj (toLex.injective h)
  cases a <;> cases r <;> simp only [Route.type, Route.id] at htype hid <;> first
    | omega
    | exact congrArg _ (Subtype.ext (by omega))

theorem rank_inj {a b : RouteT} (h : rank a = rank b) : a = b := by
  obtain ⟨-, hmap⟩ := Prod.mk.inj (toLex.injective h)
  exact List.map_injective_iff.2 (fun _ _ => Route.rank_inj) hmap

/-- Two elements of one kind. -/
theorem Route.less_eq_lessId {a r : Route} (h : a.type = r.type) : a.less r = lessId a.id r.id := by
  unfold Route.less
  rw [if_neg (not_not.2 h)]
  cases a <;> cases r <;> first
    | rfl
    | (simp only [Route.type] at h; omega)

theorem Route.less_cases (a r : Route) :
    (∃ b, a.less r = some b ∧ (b = true ↔ a.rank < r.rank)) ∧ a ≠ r ∨ a.less r = none ∧ a = r := by
  rw [Route.rank, Route.rank, Prod.Lex.toLex_lt_toLex]
  by_cases htype : a.type = r.type
  · rw [Route.less_eq_lessId htype, lessId]
    by_cases hid : a.id = r.id
    · rw [if_neg (not_not.2 hid)]
      exact .inr ⟨rfl, Route.rank_inj (congrArg toLex (Prod.ext htype hid))⟩
    · rw [if_pos hid]
      refine .inl ⟨⟨_, rfl, ?_⟩, fun h => hid (congrArg Route.id h)⟩
      simp only [decide_eq_true_eq, htype, lt_irrefl, true_and, false_or]
  · unfold Route.less
    rw [if_pos htype]
    refine .inl ⟨⟨_, rfl, ?_⟩, fun h => htype (congrArg Route.type h)⟩
    simp only [decide_eq_true_eq, htype, false_and, or_false]

theorem lessLoop_iff {l m : List Route} (h : l.length = m.length) :
    lessLoop l m = true ↔ l.map Route.rank < m.map Route.rank := by
  induction l generalizing m with
  | nil =>
    obtain rfl := List.length_eq_zero_iff.1 h.symm
    simp [lessLoop]
  | cons a l ih =>
    cases m with
    | nil => cases h
    | cons r m =>
      rw [lessLoop, List.map_cons, List.map_cons, List.cons_lt_cons_iff]
      obtain ⟨⟨b, hless, hb⟩, hne⟩ | ⟨hless, rfl⟩ := a.less_cases r
      · have hrank : a.rank ≠ r.rank := fun h => hne (Route.rank_inj h)
        rw [hless]
        simp only [hb, hrank, false_and, or_false]
      · rw [hless]
        simp only [lt_irrefl, true_and, false_or]
        exact ih (Nat.succ.inj h)

/-- `operator<` is the order of the ranks the other way round. -/
theorem less_iff (a b : RouteT) : less a b = true ↔ rank b < rank a := by
  rw [less, rank, rank, Prod.Lex.toLex_lt_toLex]
  by_cases h : b.length = a.length
  · rw [if_neg (not_not.2 h), lessLoop_iff h]
    simp only [h, lt_irrefl, true_and, false_or]
  · rw [if_pos h]
    simp only [decide_eq_true_eq, h, false_and, or_false]

theorem less_eq_false_iff (a b : RouteT) : less a b = false ↔ rank a ≤ rank b := by
  rw [← not_lt, ← less_iff, Bool.not_eq_true]

theorem Route.same_iff (a r : Route) : a.same r = true ↔ a = r := by
  constructor
  · intro h
    unfold Route.same at h
    split at h
    · cases h
    · rename_i htype
      cases a <;> cases r <;> first
        | exact congrArg _ (Subtype.ext (of_decide_eq_true h))
        | cases h
  · rintro rfl
    unfold Route.same
    rw [if_neg (not_not.2 rfl)]
    cases a <;> exact decide_eq_true rfl

theorem sameLoop_iff {l m : List Route} (h : l.length = m.length) : sameLoop l m = true ↔ l = m := by
  induction l generalizing m with
  | nil =>
    obtain rfl := List.length_eq_zero_iff.1 h.symm
    exact ⟨fun _ => rfl, fun _ => rfl⟩
  | cons a l ih =>
    cases m with
    | nil => cases h
    | cons r m => rw [sameLoop, Bool.and_eq_true, Route.same_iff, ih (Nat.succ.inj h), List.cons.injEq]

/-- `operator==` is equality. -/
theorem same_iff (a b : RouteT) : same a b = true ↔ a = b := by
  rw [same]
  by_cases h : b.length = a.length
  · rw [if_neg (not_not.2 h), sameLoop_iff h, eq_comm]
  · rw [if_pos h]
    refine ⟨fun hf => Bool.noConfusion hf, ?_⟩
    rintro rfl
    exact absurd rfl h

theorem orderLaws (a b c : RouteT) : OrderLaws a b c where
  irrefl := (less_eq_false_iff a a).2 le_rfl
  asymm h := (less_eq_false_iff b a).2 (le_of_lt ((less_iff a b).1 h))
  trans h1 h2 := (less_iff a c).2 (lt_trans ((less_iff b c).1 h2) ((less_iff a b).1 h1))
  equiv := by
    rw [less_eq_false_iff, less_eq_false_iff, same_iff]
    constructor
    · rintro ⟨h1, h2⟩
      exact rank_inj (le_antisymm h1 h2)
    · rintro rfl
      exact ⟨le_rfl, le_rfl⟩
  equiv_trans h1 h2 := (same_iff a c).2 (((same_iff a b).1 h1).trans ((same_iff b c).1 h2))

/-! ## A packed route comes back -/

theorem unpackInt_putInt (n : CInt) (r : Buffer) : unpackInt (putInt n.1 ++ r) = some (n, r) := by
  obtain ⟨n, hn⟩ := n
  refine Codec.bind_eq_some.2 ⟨_, r, (reads_getPN (toNat_emod_lt n)).back trivial r, ?_⟩
  refine Codec.pure_eq_some.2 ⟨Subtype.ext ?_, rfl⟩
  unfold InI32 at hn
  dsimp only
  rw [Int.toNat_of_nonneg (by omega), wrap32, Int.bmod]
  omega

theorem unpackSocketId_putInt (n : SocketId) (r : Buffer) : unpackSocketId (putInt n.1 ++ r) = some (n, r) := by
  obtain ⟨n, hn⟩ := n
  refine Codec.bind_eq_some.2 ⟨_, r, (reads_getPN (toNat_emod_lt n)).back trivial r, ?_⟩
  refine Codec.pure_eq_some.2 ⟨Subtype.ext ?_, rfl⟩
  unfold InI64 at hn
  dsimp only
  rw [Int.toNat_of_nonneg (by omega), wrap64, Int.bmod]
  omega

theorem unpackPointer_putPN (z : Pointer) (r : Buffer) : unpackPointer (putPN z.1 ++ r) = some (z, r) :=
  Codec.bind_eq_some.2 ⟨_, r, (reads_getPN z.2).back trivial r,
    Codec.pure_eq_some.2 ⟨Subtype.ext (Nat.mod_eq_of_lt z.2).symm, rfl⟩⟩

theorem Route.inI32_type (e : Route) : InI32 e.type := by
  unfold InI32
  cases e <;> simp only [Route.type] <;> omega

/-- The switch gives back the element that was packed, unless it was a listener. -/
theorem unpackElement_pack {e : Route} (h : e.type ≠ 7) (r : Buffer) :
    ∃ q, unpackInt (e.pack ++ r) = some (⟨e.type, e.inI32_type⟩, q) ∧ unpackElement e.type q = some (some e, r) := by
  unfold Route.pack
  rw [List.append_assoc]
  refine ⟨_, unpackInt_putInt ⟨e.type, e.inI32_type⟩ _, ?_⟩
  cases e with
  | localService id => exact Codec.bind_eq_some.2 ⟨id, r, unpackInt_putInt id r, rfl⟩
  | remoteAddr addr => exact Codec.bind_eq_some.2 ⟨addr, r, unpackSocketId_putInt addr r, rfl⟩
  | objectHandlerPolled addr => exact Codec.bind_eq_some.2 ⟨addr, r, unpackPointer_putPN addr r, rfl⟩
  | socketRoute id => exact Codec.bind_eq_some.2 ⟨id, r, unpackSocketId_putInt id r, rfl⟩
  | objectHandlerThreaded addr => exact Codec.bind_eq_some.2 ⟨addr, r, unpackPointer_putPN addr r, rfl⟩
  | thread id => exact Codec.bind_eq_some.2 ⟨id, r, unpackInt_putInt id r, rfl⟩
  | listener id => exact absurd rfl h

theorem unpackLoop_pack {l : List Route} (h : NoListener l) (r : Buffer) :
    unpackLoop l.length (l.flatMap Route.pack ++ r) = some (l, r) := by
  induction l with
  | nil => rfl
  | cons e l ih =>
    rw [List.flatMap_cons, List.append_assoc]
    obtain ⟨q, htag, hread⟩ := unpackElement_pack (h e List.mem_cons_self) (l.flatMap Route.pack ++ r)
    have hrest := ih fun a ha => h a (List.mem_cons_of_mem _ ha)
    refine Codec.bind_eq_some.2 ⟨_, q, htag, Codec.bind_eq_some.2 ⟨_, _, hread, ?_⟩⟩
    exact Codec.bind_eq_some.2 ⟨l, r, hrest, rfl⟩

theorem unpack_pack {r : RouteT} (hr : r.length < 2 ^ 64) (h : NoListener r) (q : Buffer) :
    unpack (pack r ++ q) = some (r, q) := by
  rw [pack, List.append_assoc]
  exact Codec.bind_eq_some.2 ⟨_, _, (reads_getPN hr).back trivial _, unpackLoop_pack h q⟩

/-! ## The elements of bytes -/

/-- A kind whose elements `route_t::unpack` makes. -/
def KnownType (t : Int) : Prop := 1 ≤ t ∧ t ≤ 6

instance (t : Int) : Decidable (KnownType t) := inferInstanceAs (Decidable (1 ≤ t ∧ t ≤ 6))

/-- Pass over a number. -/
def passNumber : Unpack Unit := do
  let _ ← getPN
  pure ()

/-- What follows a kind: a listener is refused, a known kind has a number. -/
def operand (t : Int) : Unpack Unit :=
  if t = 7 then fun _ => none
  else if KnownType t then passNumber
  else pure ()

/-- The kinds of so many elements. -/
def tagsLoop : Nat → Unpack (List Int)
  | 0 => pure []
  | n + 1 => do
    let t ← unpackInt
    operand t.1
    let l ← tagsLoop n
    pure (t.1 :: l)

/-- The kinds of the elements in bytes, after their number. -/
def tags : Unpack (List Int) := do
  let sz ← getPN
  tagsLoop sz

/-- Read a number and make an element of it. -/
def readNumber {α : Type} (g : Nat → α) (F : α → Route) : Unpack (Option Route) := do
  let a ← (do
    let n ← getPN
    pure (g n) : Unpack α)
  pure (some (F a))

/-- An element that is read as a number takes what its operand takes. -/
theorem number_cases {α : Type} {g : Nat → α} (F : α → Route) (hF : ∀ a, (F a).type ≠ 7) (s : Buffer) :
    readNumber g F s = none ∧ passNumber s = none ∨
      ∃ e q, readNumber g F s = some (some e, q) ∧ passNumber s = some ((), q) ∧ e.type ≠ 7 := by
  cases hn : getPN s with
  | none =>
    refine .inl ⟨?_, ?_⟩
    · change ((getPN s).bind _).bind _ = none
      rw [hn]
      rfl
    · change (getPN s).bind _ = none
      rw [hn]
      rfl
  | some x =>
    refine .inr ⟨F (g x.1), x.2, ?_, ?_, hF _⟩
    · exact Codec.bind_eq_some.2 ⟨g x.1, x.2, Codec.bind_eq_some.2 ⟨x.1, x.2, hn, rfl⟩, rfl⟩
    · exact Codec.bind_eq_some.2 ⟨x.1, x.2, hn, rfl⟩

/-- The switch and the operand take the same bytes; a known kind gives an element, and any other kind none. -/
theorem element_cases (t : Int) (s : Buffer) :
    unpackElement t s = none ∧ operand t s = none ∨
      ∃ o q, unpackElement t s = some (o, q) ∧ operand t s = some ((), q) ∧
        (KnownType t ∧ o.toList.length = 1 ∨ ¬KnownType t ∧ o.toList.length = 0) ∧ NoListener o.toList := by
  have hknown {α : Type} {g : Nat → α} (ht : KnownType t) (h7 : t ≠ 7) (F : α → Route) (hF : ∀ a, (F a).type ≠ 7)
      (hread : unpackElement t = readNumber g F) :
      unpackElement t s = none ∧ operand t s = none ∨
        ∃ o q, unpackElement t s = some (o, q) ∧ operand t s = some ((), q) ∧
          (KnownType t ∧ o.toList.length = 1 ∨ ¬KnownType t ∧ o.toList.length = 0) ∧ NoListener o.toList := by
    rw [hread, operand, if_neg h7, if_pos ht]
    rcases number_cases F hF s with h | ⟨e, q, h1, h2, h3⟩
    · exact .inl h
    · refine .inr ⟨some e, q, h1, h2, .inl ⟨ht, rfl⟩, ?_⟩
      intro a ha
      rw [List.mem_singleton.1 ha]
      exact h3
  by_cases h7 : t = 7
  · refine .inl ⟨?_, ?_⟩
    · rw [unpackElement, if_pos h7]
    · rw [operand, if_pos h7]
  by_cases ht : KnownType t
  · obtain ⟨h1, h6⟩ := ht
    obtain rfl | rfl | rfl | rfl | rfl | rfl : t = 1 ∨ t = 2 ∨ t = 3 ∨ t = 4 ∨ t = 5 ∨ t = 6 := by omega
    · exact hknown ⟨h1, h6⟩ h7 Route.localService (fun _ => (by decide : (1 : Int) ≠ 7)) rfl
    · exact hknown ⟨h1, h6⟩ h7 Route.remoteAddr (fun _ => (by decide : (2 : Int) ≠ 7)) rfl
    · exact hknown ⟨h1, h6⟩ h7 Route.objectHandlerPolled (fun _ => (by decide : (3 : Int) ≠ 7)) rfl
    · exact hknown ⟨h1, h6⟩ h7 Route.socketRoute (fun _ => (by decide : (4 : Int) ≠ 7)) rfl
    · exact hknown ⟨h1, h6⟩ h7 Route.objectHandlerThreaded (fun _ => (by decide : (5 : Int) ≠ 7)) rfl
    · exact hknown ⟨h1, h6⟩ h7 Route.thread (fun _ => (by decide : (6 : Int) ≠ 7)) rfl
  · refine .inr ⟨none, s, ?_, ?_, .inr ⟨ht, rfl⟩, fun a ha => absurd ha List.not_mem_nil⟩
    · unfold KnownType at ht
      rw [unpackElement, if_neg h7, if_neg (by omega), if_neg (by omega), if_neg (by omega), if_neg (by omega),
        if_neg (by omega), if_neg (by omega)]
      rfl
    · rw [operand, if_neg h7, if_neg ht]
      rfl

/-- The two loops take the same bytes, and there are as many elements as kinds if the kinds are known. -/
theorem loop_cases (n : Nat) (s : Buffer) :
    unpackLoop n s = none ∧ tagsLoop n s = none ∨
      ∃ l ts q, unpackLoop n s = some (l, q) ∧ tagsLoop n s = some (ts, q) ∧ l.length ≤ n ∧
        (l.length = n ↔ ∀ t ∈ ts, KnownType t) ∧ NoListener l := by
  induction n generalizing s with
  | zero =>
    refine .inr ⟨[], [], s, rfl, rfl, Nat.le_refl _, ⟨fun _ t ht => absurd ht List.not_mem_nil, fun _ => rfl⟩, ?_⟩
    intro e he
    exact absurd he List.not_mem_nil
  | succ n ih =>
    cases ht : unpackInt s with
    | none =>
      refine .inl ⟨?_, ?_⟩
      · change (unpackInt s).bind _ = none
        rw [ht]
        rfl
      · change (unpackInt s).bind _ = none
        rw [ht]
        rfl
    | some x =>
      have hloop : unpackLoop (n + 1) s = (do let r ← unpackElement x.1.1; let l ← unpackLoop n; pure (r.toList ++ l) :
          Unpack (List Route)) x.2 := Codec.bind_apply ht
      have htags : tagsLoop (n + 1) s = (do operand x.1.1; let l ← tagsLoop n; pure (x.1.1 :: l) : Unpack (List Int)) x.2 :=
        Codec.bind_apply ht
      rw [hloop, htags]
      obtain ⟨hnone, hop⟩ | ⟨o, q, hsome, hop, hknown, hlist⟩ := element_cases x.1.1 x.2
      · refine .inl ⟨?_, ?_⟩
        · change (unpackElement x.1.1 x.2).bind _ = none
          rw [hnone]
          rfl
        · change (operand x.1.1 x.2).bind _ = none
          rw [hop]
          rfl
      · rw [Codec.bind_apply hsome, Codec.bind_apply hop]
        obtain ⟨hnone, hrest⟩ | ⟨l, ts, q', hl, hts, hle, hiff, hno⟩ := ih q
        · refine .inl ⟨?_, ?_⟩
          · change (unpackLoop n q).bind _ = none
            rw [hnone]
            rfl
          · change (tagsLoop n q).bind _ = none
            rw [hrest]
            rfl
        · rw [Codec.bind_apply hl, Codec.bind_apply hts]
          refine .inr ⟨_, _, q', rfl, rfl, ?_, ?_, ?_⟩
          · rw [List.length_append]
            rcases hknown with ⟨-, h1⟩ | ⟨-, h0⟩ <;> omega
          · rw [List.length_append, List.forall_mem_cons, ← hiff]
            constructor
            · intro hlen
              rcases hknown with ⟨hk, h1⟩ | ⟨-, h0⟩
              · exact ⟨hk, by omega⟩
              · omega
            · rintro ⟨hk, hlen⟩
              rcases hknown with ⟨-, h1⟩ | ⟨hk', -⟩
              · omega
              · exact absurd hk hk'
          · intro e he
            rcases List.mem_append.1 he with he | he
            · exact hlist e he
            · exact hno e he

theorem unpack_cases (s : Buffer) :
    unpack s = none ∧ tags s = none ∨
      ∃ n q l ts r, getPN s = some (n, q) ∧ unpack s = some (l, r) ∧ tags s = some (ts, r) ∧ l.length ≤ n ∧
        (l.length = n ↔ ∀ t ∈ ts, KnownType t) ∧ NoListener l := by
  cases hn : getPN s with
  | none =>
    refine .inl ⟨?_, ?_⟩
    · change (getPN s).bind _ = none
      rw [hn]
      rfl
    · change (getPN s).bind _ = none
      rw [hn]
      rfl
  | some x =>
    have hunpack : unpack s = unpackLoop x.1 x.2 := Codec.bind_apply hn
    have htags : tags s = tagsLoop x.1 x.2 := Codec.bind_apply hn
    rw [hunpack, htags]
    obtain h | ⟨l, ts, q, hl, hts, hle, hiff, hno⟩ := loop_cases x.1 x.2
    · exact .inl h
    · exact .inr ⟨x.1, x.2, l, ts, q, rfl, hl, hts, hle, hiff, hno⟩

/-! ## The laws -/

theorem laws_of_known {r : RouteT} (hr : r.length < 2 ^ 64) {s : Buffer}
    (h : ∀ ts q, tags s = some (ts, q) → ∀ t ∈ ts, KnownType t) (a b c : RouteT) : Laws a b c r s where
  order := orderLaws a b c
  back hno q := ⟨r, unpack_pack hr hno q, (same_iff r r).2 rfl⟩
  accepted := by
    intro r' q hread
    obtain ⟨hnone, -⟩ | ⟨n, q', l, ts, q'', hn, hl, hts, hle, hiff, hno⟩ := unpack_cases s
    · rw [hnone] at hread
      cases hread
    · rw [hl] at hread
      cases hread
      have hback := unpack_pack (Nat.lt_of_le_of_lt hle (yields_getPN s n q' hn)) hno []
      rw [List.append_nil] at hback
      exact ⟨⟨n, q', hn, hiff.2 (h ts _ hts)⟩, r', hback, (same_iff r' r').2 rfl⟩

theorem known_of_laws {a b c r : RouteT} {s : Buffer} (h : Laws a b c r s) :
    ∀ ts q, tags s = some (ts, q) → ∀ t ∈ ts, KnownType t := by
  intro ts q hts
  obtain ⟨-, hnone⟩ | ⟨n, q', l, ts', q'', hn, hl, hts', -, hiff, -⟩ := unpack_cases s
  · rw [hnone] at hts
    cases hts
  · rw [hts'] at hts
    cases hts
    obtain ⟨⟨m, p, hm, hlen⟩, -⟩ := h.accepted l _ hl
    rw [hn] at hm
    cases hm
    exact hiff.1 hlen

/-- Routes keep their laws at three routes, a route to pack and bytes to unpack exactly if all elements in the bytes are of known
kinds: an unknown kind is counted and gives no element. -/
theorem routeLaws_iff (a b c : RouteT) {r : RouteT} (hr : r.length < 2 ^ 64) (s : Buffer) :
    Laws a b c r s ↔ ∀ ts q, tags s = some (ts, q) → ∀ t ∈ ts, KnownType t :=
  ⟨known_of_laws, fun h => laws_of_known hr h a b c⟩

/-- A length of 1 and the kind 9 give a route without elements. -/
theorem route_laws_false : ¬ ∀ (a b c r : RouteT) (s : Buffer), r.length < 2 ^ 64 → Laws a b c r s := by
  intro h
  have htags : tags [Char.ofNat 1, Char.ofNat 9] = some ([9], []) := by decide +kernel
  have hknown := known_of_laws (h [] [] [] [] [Char.ofNat 1, Char.ofNat 9] (by decide)) [9] [] htags 9 List.mem_cons_self
  exact absurd hknown (by decide)

/-- The laws at routes with elements of several kinds, and at bytes of a route with two elements. -/
theorem routeLaws_sample :
    Laws [.thread ⟨-1, by decide, by decide⟩] [.localService ⟨3, by decide, by decide⟩] []
      [.remoteAddr ⟨-5, by decide, by decide⟩, .objectHandlerPolled ⟨7, by decide⟩]
      [Char.ofNat 2, Char.ofNat 1, Char.ofNat 3, Char.ofNat 4, Char.ofNat 5] := by
  refine (routeLaws_iff _ _ _ (by decide) _).2 ?_
  have htags : tags [Char.ofNat 2, Char.ofNat 1, Char.ofNat 3, Char.ofNat 4, Char.ofNat 5] = some ([1, 4], []) := by
    decide +kernel
  intro ts q h
  rw [htags] at h
  cases h
  decide

end RouteT

end Grain
