import Grain.Lemmas.Convert
import Grain.LiteNode
import Grain.Theorems.Granules

/-!
# What a lite node reads

A granule that a full node answers with comes out of the lite node's reader as it is stored: the address survives the query string,
and the body survives the JSON. So whatever a lite node reads, the full node had stored under that address at some time; and a lite
node that read a granule once reads the same one ever after, whatever the full node stores (`run_lite`).
-/

namespace Grain

namespace Granules

variable {blake2bHash : String → String}

/-! ## Hexadecimal -/

theorem digitChar_ge {n : Nat} (h : 16 ≤ n) : Nat.digitChar n = '*' := by
  unfold Nat.digitChar
  simp [show n ≠ 0 by omega, show n ≠ 1 by omega, show n ≠ 2 by omega, show n ≠ 3 by omega, show n ≠ 4 by omega,
    show n ≠ 5 by omega,
    show n ≠ 6 by omega, show n ≠ 7 by omega, show n ≠ 8 by omega, show n ≠ 9 by omega, show n ≠ 10 by omega, show n ≠ 11 by omega,
    show n ≠ 12 by omega, show n ≠ 13 by omega, show n ≠ 14 by omega, show n ≠ 15 by omega]

theorem hexVal_digitChar (n : Nat) : hexVal (Nat.digitChar n) = if n < 16 then some n else none := by
  by_cases h : n < 16
  · rw [if_pos h]
    have : ∀ d < 16, hexVal (Nat.digitChar d) = some d := by decide
    exact this n h
  · rw [if_neg h, digitChar_ge (by omega)]
    decide

/-- A digit is no character that means something in an address or in a JSON string. -/
theorem digitChar_plain (n : Nat) : 0x20 ≤ (Nat.digitChar n).toNat ∧ (Nat.digitChar n).toNat < 0x80 ∧
    Nat.digitChar n ∉ ['"', '\\', '&', '=', '?'] := by
  by_cases h : n < 16
  · have : ∀ d < 16, 0x20 ≤ (Nat.digitChar d).toNat ∧ (Nat.digitChar d).toNat < 0x80 ∧
        Nat.digitChar d ∉ ['"', '\\', '&', '=', '?'] := by decide
    exact this n h
  · rw [digitChar_ge (by omega)]
    decide

theorem mem_hexDigits {l : List Char} {c : Char} (h : c ∈ l.flatMap hexDigits) :
    0x20 ≤ c.toNat ∧ c.toNat < 0x80 ∧ c ∉ ['"', '\\', '&', '=', '?'] := by
  obtain ⟨x, -, hx⟩ := List.mem_flatMap.1 h
  unfold hexDigits at hx
  rcases List.mem_cons.1 hx with rfl | hx
  · exact digitChar_plain _
  · obtain rfl := List.mem_singleton.1 hx
    exact digitChar_plain _

theorem toList_base16Encode (s : String) : (base16Encode s).toList = s.toList.flatMap hexDigits := String.toList_ofList

/-- What was written in hexadecimal is read back, if it can be read at all: a byte can. -/
theorem decodeHexChars_hexDigits (l : List Char) :
    (∀ r, decodeHexChars (l.flatMap hexDigits) = .ok r → r = l) ∧
      ((∀ c ∈ l, c.toNat < 256) → decodeHexChars (l.flatMap hexDigits) = .ok l) := by
  induction l with
  | nil => exact ⟨fun r h => (Except.ok.inj h).symm, fun _ => rfl⟩
  | cons c l ih =>
    rw [List.flatMap_cons]
    simp only [hexDigits, List.cons_append, List.nil_append, decodeHexChars, hexVal_digitChar]
    rw [if_pos (Nat.mod_lt c.toNat (by omega))]
    by_cases hc : c.toNat < 256
    · rw [if_pos (by omega)]
      have hback : Char.ofNat (16 * (c.toNat / 16) + c.toNat % 16) = c := by
        rw [Nat.div_add_mod, Char.ofNat_toNat]
      constructor
      · intro r h
        split at h
        · next h₁ h₂ h₃ =>
          cases h₁
          cases h₂
          obtain rfl := ih.1 _ h₃
          rw [hback] at h
          exact (Except.ok.inj h).symm
        · cases h
      · intro hl
        rw [ih.2 fun x hx => hl x (List.mem_cons_of_mem c hx)]
        dsimp only
        rw [hback]
    · rw [if_neg (by omega)]
      exact ⟨fun r h => by simp at h, fun hl => absurd (hl c List.mem_cons_self) hc⟩

theorem base16Decode_encode {s r : String} (h : base16Decode (base16Encode s) = .ok r) : r = s := by
  unfold base16Decode at h
  rw [toList_base16Encode] at h
  cases hd : decodeHexChars (s.toList.flatMap hexDigits) with
  | error e =>
    rw [hd] at h
    cases h
  | ok l =>
    rw [hd] at h
    rw [← Except.ok.inj h, (decodeHexChars_hexDigits s.toList).1 l hd, String.ofList_toList]

/-- A `std::string` has bytes. -/
def Bytes (s : String) : Prop := ∀ c ∈ s.toList, c.toNat < 256

theorem base16Decode_bytes {s : String} (h : Bytes s) : base16Decode (base16Encode s) = .ok s := by
  unfold base16Decode
  rw [toList_base16Encode, (decodeHexChars_hexDigits s.toList).2 h]
  exact congrArg Except.ok (String.ofList_toList)

/-! ## The address -/

theorem cutAt_append {c : Char} {pre l : List Char} (h : c ∉ pre) : cutAt c (pre ++ c :: l) = (pre, some l) := by
  induction pre with
  | nil => simp [cutAt]
  | cons x pre ih =>
    rw [List.mem_cons, not_or] at h
    rw [List.cons_append, cutAt, if_neg (Ne.symm h.1), ih h.2]

theorem cutAt_none {c : Char} {l : List Char} (h : c ∉ l) : cutAt c l = (l, none) := by
  induction l with
  | nil => rfl
  | cons x l ih =>
    rw [List.mem_cons, not_or] at h
    rw [cutAt, if_neg (Ne.symm h.1), ih h.2]

theorem paramsOf_addr (k : String) :
    paramsOf ("/granule?addr=" ++ base16Encode k) = (∅ : StdMap String String).insert "addr" (base16Encode k) := by
  have hplain : ∀ c ∈ ['&', '=', '?'], c ∉ k.toList.flatMap hexDigits := by
    intro c hc hmem
    refine (mem_hexDigits hmem).2.2 ?_
    fin_cases hc <;> decide
  have huri : ("/granule?addr=" ++ base16Encode k).toList
      = "/granule".toList ++ '?' :: ("addr".toList ++ '=' :: k.toList.flatMap hexDigits) := by
    rw [String.toList_append, toList_base16Encode]
    rfl
  unfold paramsOf
  rw [huri, cutAt_append (by decide)]
  dsimp only
  have hamp : '&' ∉ "addr".toList ++ '=' :: k.toList.flatMap hexDigits := by
    rw [List.mem_append, List.mem_cons]
    rintro (h | h | h)
    · exact absurd h (by decide)
    · exact absurd h (by decide)
    · exact hplain '&' (by decide) h
  have hne : "addr".toList ++ '=' :: k.toList.flatMap hexDigits ≠ [] := by simp
  rw [queryParams]
  · rw [cutAt_none hamp]
    dsimp only
    rw [cutAt_append (by decide)]
    dsimp only
    rw [String.ofList_toList]
    rfl
  · exact hne

/-! ## The request -/

/-- What is written with a granule. -/
def granuleText (v : String) : String := "\x7b\"body\":\"" ++ base16Encode v ++ "\",\"stale\":false\x7d"

/-- What a request for an address gets: the granule there, or nothing that a reader takes. -/
theorem requestIncoming_addr (s : Reader) (k : String) :
    (∀ rsp, s.requestIncoming blake2bHash ("/granule?addr=" ++ base16Encode k) = .ok (some rsp) → rsp.status = 200 →
      ∃ v, s.db[k]? = some v ∧ v ≠ "" ∧ k.length = 32 ∧ rsp = { body := granuleText v }) ∧
      ∀ v, s.db[k]? = some v → v ≠ "" → k.length = 32 → Bytes k →
        s.requestIncoming blake2bHash ("/granule?addr=" ++ base16Encode k) = .ok (some { body := granuleText v }) := by
  have hstart : ("/granule".toList.isPrefixOf ("/granule?addr=" ++ base16Encode k).toList) = true := by
    rw [String.toList_append]
    rfl
  have haddr : (paramsOf ("/granule?addr=" ++ base16Encode k))["addr"]?.getD "" = base16Encode k := by
    rw [paramsOf_addr]
    simp
  have hhash : (paramsOf ("/granule?addr=" ++ base16Encode k))["hash"]?.getD "" = "" := by
    rw [paramsOf_addr, StdMap.getElem?_insert]
    simp
  unfold Reader.requestIncoming
  rw [hstart]
  simp only [Bool.not_true, Bool.false_eq_true, if_false, haddr, hhash, if_true]
  by_cases hk : base16Encode k = ""
  · rw [if_pos hk]
    refine ⟨fun rsp h h200 => ?_, fun v _ _ hlen hb => ?_⟩
    · rw [← Option.some.inj (Except.ok.inj h)] at h200
      cases h200
    · have := base16Decode_bytes hb
      rw [hk] at this
      obtain rfl : "" = k := Except.ok.inj this
      cases hlen
  rw [if_neg hk]
  cases hd : base16Decode (base16Encode k) with
  | error e =>
    dsimp only
    refine ⟨fun rsp h => absurd h (by simp), fun v _ _ _ hb => ?_⟩
    rw [base16Decode_bytes hb] at hd
    cases hd
  | ok addr =>
    obtain rfl := base16Decode_encode hd
    dsimp only
    by_cases hlen : addr.length = 32
    · rw [if_neg (not_not.2 hlen)]
      simp only [ne_eq, not_true_eq_false, false_and, if_false, true_or, and_true]
      cases hdb : s.db[addr]? with
      | none =>
        refine ⟨fun rsp h h200 => ?_, fun v h _ _ _ => absurd h (by simp)⟩
        simp only [Option.getD_none, not_true_eq_false, if_false] at h
        rw [← Option.some.inj (Except.ok.inj h)] at h200
        cases h200
      | some v =>
        simp only [Option.getD_some]
        by_cases hv : v = ""
        · rw [if_neg (not_not.2 hv)]
          refine ⟨fun rsp h h200 => ?_, fun v' h hv' => ?_⟩
          · rw [← Option.some.inj (Except.ok.inj h)] at h200
            cases h200
          · obtain rfl := Option.some.inj h
            exact absurd hv hv'
        · rw [if_pos hv]
          refine ⟨fun rsp h _ => ⟨v, rfl, hv, hlen, (Option.some.inj (Except.ok.inj h)).symm⟩, fun v' h _ _ _ => ?_⟩
          obtain rfl := Option.some.inj h
          rfl
    · rw [if_pos hlen]
      refine ⟨fun rsp h h200 => ?_, fun v _ _ hlen' => absurd hlen' hlen⟩
      rw [← Option.some.inj (Except.ok.inj h)] at h200
      cases h200

/-! ## The answer -/

theorem isUtf8_ascii {l : List Char} (h : ∀ c ∈ l, c.toNat < 0x80) : Convert.isUtf8 l = true := by
  induction l with
  | nil => rfl
  | cons c l ih =>
    have hc : Convert.isSequence [c] = true := by simpa [Convert.isSequence] using h c List.mem_cons_self
    rw [Convert.isUtf8.eq_def]
    dsimp only
    rw [if_pos hc]
    exact ih fun x hx => h x (List.mem_cons_of_mem c hx)

theorem names : (Convert.isUtf8 ['b', 'o', 'd', 'y'] = true ∧ Convert.Unescaped ['b', 'o', 'd', 'y']) ∧
    Convert.isUtf8 ['s', 't', 'a', 'l', 'e'] = true ∧ Convert.Unescaped ['s', 't', 'a', 'l', 'e'] := by
  unfold Convert.Unescaped
  refine ⟨⟨isUtf8_ascii ?_, ?_⟩, isUtf8_ascii ?_, ?_⟩ <;> simp

/-- The hexadecimal text of the granule comes out of the JSON. -/
theorem bodyOf_granuleText (v : String) :
    (Convert.jsonParse (granuleText v).toList).bind bodyOf = some (base16Encode v) := by
  have hhex : ∀ c ∈ v.toList.flatMap hexDigits, 0x20 ≤ c.toNat ∧ c.toNat < 0x80 ∧ c ∉ ['"', '\\', '&', '=', '?'] :=
    fun c hc => mem_hexDigits hc
  have hunescaped : (v.toList.flatMap hexDigits).flatMap Convert.escapeByte = v.toList.flatMap hexDigits := by
    refine Convert.flatMap_escapeByte fun c hc => ⟨(hhex c hc).1, ?_, ?_⟩
    · exact fun h => (hhex c hc).2.2 (by rw [h]; decide)
    · exact fun h => (hhex c hc).2.2 (by rw [h]; decide)
  let j : Convert.Jsi := .obj [(['b', 'o', 'd', 'y'], .str (v.toList.flatMap hexDigits)), (['s', 't', 'a', 'l', 'e'], .bool false)]
  have htext : (granuleText v).toList = Convert.plainText j := by
    rw [granuleText, String.toList_append, String.toList_append, toList_base16Encode]
    simp only [j, Convert.plainText, Convert.plainProps, Convert.memberText, hunescaped]
    simp [Convert.commaSep]
  have hj : Convert.All (fun k => Convert.isUtf8 k = true ∧ Convert.Unescaped k) (Convert.isUtf8 · = true) (fun _ => True) j := by
    simp only [j, Convert.all_obj, List.mem_cons, List.not_mem_nil, or_false]
    rintro p (rfl | rfl)
    · exact ⟨names.1, isUtf8_ascii fun c hc => (hhex c hc).2.1⟩
    · exact ⟨names.2, trivial⟩
  have hread := Convert.readsBack Convert.reads_json hj (2 * (Convert.plainText j).length + 2) []
    (by intro c hc; cases hc) (by omega)
  rw [List.append_nil] at hread
  rw [htext, Convert.jsonParse, hread]
  simp only [j, Convert.litOf, Convert.litOf.litProps]
  rfl

/-! ## A read -/

/-- What a read of the lite node gives: what it has, or what the full node has at that time and the lite node keeps. -/
theorem getGranule_answer {s : Uplink} {reached : Bool} {k v : String}
    (h : (s.lite.getGranule (s.get blake2bHash reached) k).2 = some v) :
    s.lite.db[k]? = some v ∧ (s.lite.getGranule (s.get blake2bHash reached) k).1 = s.lite ∨
      s.lite.db[k]? = none ∧ s.full.db[k]? = some v ∧ v ≠ "" ∧ k.length = 32 ∧
        (s.lite.getGranule (s.get blake2bHash reached) k).1.db = s.lite.db.insert k v := by
  unfold LiteNode.getGranule at h ⊢
  cases hlocal : s.lite.db[k]? with
  | some w =>
    rw [hlocal] at h
    exact .inl ⟨h, rfl⟩
  | none =>
    right
    rw [hlocal] at h
    dsimp only at h ⊢
    cases hget : s.get blake2bHash reached ("/granule?addr=" ++ base16Encode k) with
    | none =>
      rw [hget] at h
      cases h
    | some res =>
      rw [hget] at h
      dsimp only at h ⊢
      by_cases h200 : res.status = 200
      · rw [if_neg (not_not.2 h200)] at h ⊢
        have hreq : s.full.requestIncoming blake2bHash ("/granule?addr=" ++ base16Encode k) = .ok (some res) := by
          unfold Uplink.get at hget
          split at hget
          · split at hget
            · next heq => rw [heq, hget]
            · cases hget
          · cases hget
        obtain ⟨w, hw, hne, hlen, rfl⟩ := (requestIncoming_addr s.full k).1 res hreq h200
        rw [bodyOf_granuleText] at h ⊢
        dsimp only at h ⊢
        cases hd : base16Decode (base16Encode w) with
        | error e =>
          rw [hd] at h
          cases h
        | ok x =>
          obtain rfl := base16Decode_encode hd
          rw [hd] at h
          obtain rfl := Option.some.inj h
          exact ⟨rfl, hw, hne, hlen, rfl⟩
      · rw [if_pos h200] at h
        cases h

theorem getGranule_none {s : Uplink} {reached : Bool} {k : String}
    (h : (s.lite.getGranule (s.get blake2bHash reached) k).2 = none) :
    (s.lite.getGranule (s.get blake2bHash reached) k).1 = s.lite := by
  unfold LiteNode.getGranule at h ⊢
  repeat' split at h
  all_goals simp_all

/-- A granule that the full node has is read, if the full node is in reach. -/
theorem getGranule_stored {s : Uplink} {k v : String} (hlocal : s.lite.db[k]? = none) (hdb : s.full.db[k]? = some v) (hv : v ≠ "")
    (hlen : k.length = 32) (hk : Bytes k) (hb : Bytes v) : (s.lite.getGranule (s.get blake2bHash true) k).2 = some v := by
  unfold LiteNode.getGranule
  rw [hlocal]
  have hget : s.get blake2bHash true ("/granule?addr=" ++ base16Encode k) = some { body := granuleText v } := by
    unfold Uplink.get
    rw [if_pos rfl, (requestIncoming_addr s.full k).2 v hdb hv hlen hk]
  rw [hget]
  dsimp only
  rw [if_neg (not_not.2 rfl), bodyOf_granuleText]
  dsimp only
  rw [base16Decode_bytes hb]

/-! ## A run -/

/-- The full node has the granule under the address after some of the steps. -/
def Stored (blake2bHash : String → String) (s : Uplink) (steps : List UplinkStep) (k v : String) : Prop :=
  ∃ past, past <+: steps ∧ (s.run blake2bHash past).full.db[k]? = some v

theorem Stored.append {s : Uplink} {steps : List UplinkStep} {k v : String} (h : Stored blake2bHash s steps k v)
    (more : List UplinkStep) : Stored blake2bHash s (steps ++ more) k v := by
  obtain ⟨past, hpast, h⟩ := h
  exact ⟨past, hpast.trans (List.prefix_append steps more), h⟩

/-- What a lite node has and what it has answered. -/
structure Faithful (blake2bHash : String → String) (init : Uplink) (steps : List UplinkStep) (s : Uplink) : Prop where
  kept : ∀ k v, s.lite.db[k]? = some v → k.length = 32 ∧ v ≠ "" ∧ Stored blake2bHash init steps k v
  answered : ∀ a ∈ s.answers, s.lite.db[a.1]? = some a.2

theorem Faithful.step {init s : Uplink} {steps : List UplinkStep} (hs : s = init.run blake2bHash steps)
    (h : Faithful blake2bHash init steps s) (st : UplinkStep) :
    Faithful blake2bHash init (steps ++ [st]) (st.run blake2bHash s) := by
  cases st with
  | full st =>
    refine ⟨fun k v hv => ?_, h.answered⟩
    obtain ⟨hlen, hne, hstored⟩ := h.kept k v hv
    exact ⟨hlen, hne, hstored.append _⟩
  | getGranule k reached =>
    simp only [UplinkStep.run]
    have hold : ∀ k' v', s.lite.db[k']? = some v' →
        k'.length = 32 ∧ v' ≠ "" ∧ Stored blake2bHash init (steps ++ [.getGranule k reached]) k' v' := fun k' v' hv' => by
      obtain ⟨hlen, hne, hstored⟩ := h.kept k' v' hv'
      exact ⟨hlen, hne, hstored.append _⟩
    cases hr : (s.lite.getGranule (s.get blake2bHash reached) k).2 with
    | none =>
      rw [getGranule_none hr]
      exact ⟨hold, h.answered⟩
    | some v =>
      rcases getGranule_answer hr with ⟨hv, hsame⟩ | ⟨hnew, hv, hne, hlen, hdb⟩
      · rw [hsame]
        refine ⟨hold, fun a ha => ?_⟩
        rcases List.mem_cons.1 ha with rfl | ha
        · exact hv
        · exact h.answered a ha
      · refine ⟨fun k' v' hv' => ?_, fun a ha => ?_⟩
        · dsimp only at hv'
          rw [hdb, StdMap.getElem?_insert] at hv'
          by_cases hk : k = k'
          · rw [if_pos hk] at hv'
            subst hk
            obtain rfl := Option.some.inj hv'
            refine ⟨hlen, hne, steps, List.prefix_append steps _, ?_⟩
            rw [← hs]
            exact hv
          · rw [if_neg hk] at hv'
            exact hold k' v' hv'
        · dsimp only
          rw [hdb, StdMap.getElem?_insert]
          rcases List.mem_cons.1 ha with rfl | ha
          · rw [if_pos rfl]
          · have hkept := h.answered a ha
            have hk : k ≠ a.1 := by
              rintro rfl
              exact absurd (hkept.symm.trans hnew) (by simp)
            rw [if_neg hk]
            exact hkept

theorem Faithful.run (db : StdMap String String) (steps : List UplinkStep) :
    Faithful blake2bHash { full := { db := db } } steps (Uplink.run blake2bHash steps { full := { db := db } }) := by
  induction steps using List.reverseRecOn with
  | nil => exact ⟨fun k v hv => by simp [Uplink.run] at hv, List.forall_mem_nil _⟩
  | append_singleton steps st ih =>
    have hrun : Uplink.run blake2bHash (steps ++ [st]) { full := { db := db } }
        = st.run blake2bHash (Uplink.run blake2bHash steps { full := { db := db } }) := by
      unfold Uplink.run
      rw [List.foldl_append]
      rfl
    rw [hrun]
    exact ih.step rfl st

/-- Over every run of a full node and a lite node that starts with an empty database: whatever a read of the lite node gives, the
full node had stored under that address at some time before; all reads of an address that give something give the same; and the read
of an address where the full node has a granule gives one, if the full node is in reach. -/
theorem run_lite (db : StdMap String String) (steps : List UplinkStep) :
    let s := Uplink.run blake2bHash steps { full := { db := db } }
    (∀ a ∈ s.answers, a.1.length = 32 ∧ a.2 ≠ "" ∧ Stored blake2bHash { full := { db := db } } steps a.1 a.2) ∧
      (∀ a ∈ s.answers, ∀ b ∈ s.answers, a.1 = b.1 → a.2 = b.2) ∧
      ∀ k v, s.full.db[k]? = some v → v ≠ "" → k.length = 32 → Bytes k → Bytes v →
        ∃ w, ((UplinkStep.getGranule k true).run blake2bHash s).answers = (k, w) :: s.answers := by
  intro s
  have hs : Faithful blake2bHash { full := { db := db } } steps s := Faithful.run db steps
  refine ⟨fun a ha => hs.kept a.1 a.2 (hs.answered a ha), fun a ha b hb hab => ?_, fun k v hv hne hlen hk hb => ?_⟩
  · have h₁ := hs.answered a ha
    rw [hab, hs.answered b hb] at h₁
    exact (Option.some.inj h₁).symm
  · cases hlocal : s.lite.db[k]? with
    | some w =>
      refine ⟨w, ?_⟩
      simp [UplinkStep.run, LiteNode.getGranule, hlocal]
    | none =>
      refine ⟨v, ?_⟩
      simp only [UplinkStep.run]
      rw [getGranule_stored hlocal hv hne hlen hk hb]
      rfl

end Granules

end Grain
