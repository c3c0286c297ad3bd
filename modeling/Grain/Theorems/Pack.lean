import Grain.Pack

/-!
# Packed cells come back

Every payload is read back from its bytes, whatever follows them, exactly if each of its containers has a number of elements
that an `unsigned int` holds; so is every cell, and cells that come back have different bytes.
-/

namespace Grain

open Codec

/-! ## Sets and maps -/

theorem sizedMap_empty {ν : Type} (P : ν → Prop) : SizedMap P ∅ := by
  intro e he
  rw [Std.ExtTreeMap.mem_toList_iff_getElem?_eq_some, Std.ExtTreeMap.getElem?_empty] at he
  cases he

theorem reads_getSet {s : StdSet String} (h : SizedSet s) : Codec.Reads getSet (putSet s) s (s.size < 2 ^ 32) := by
  refine reads_packSet (C := elements) (by decide) ?_
  intro a ha
  exact reads_getPSTR (h a ha)

theorem reads_getMap {ν : Type} {P ok : ν → Prop} {x : Unpack ν} {y : ν → Buffer} {m : StdMap String ν} (h : SizedMap P m)
    (hx : ∀ v, P v → Codec.Reads x (y v) v (ok v)) :
    Codec.Reads (getMap x) (putMap y m) m (m.size < 2 ^ 32 ∧ ∀ e ∈ m.toList, ok e.2) := by
  refine reads_packMap (C := elements) (by decide) ?_ ?_
  · intro e he
    exact reads_getPSTR (h e he).1
  · intro e he
    exact hx e.2 (h e he).2

theorem reads_getMap_always {ν : Type} {P : ν → Prop} {x : Unpack ν} {y : ν → Buffer} {m : StdMap String ν} (h : SizedMap P m)
    (hx : ∀ v, P v → Codec.Reads x (y v) v True) : Codec.Reads (getMap x) (putMap y m) m (m.size < 2 ^ 32) := by
  refine reads_packMap_always (C := elements) (by decide) ?_ ?_
  · intro e he
    exact reads_getPSTR (h e he).1
  · intro e he
    exact hx e.2 (h e he).2

theorem reads_version : Codec.Reads getPN (putPN 1) 1 True := reads_getPN (by decide)

/-! ## The payloads -/

theorem Key.reads {k : Key} (h : k.Typed) : Codec.Reads Key.unpack k.pack k True :=
  (reads_getPN h.id).then <| (reads_getUInt8 h.type).then <| (reads_getPSTR h.keybuffer).then <| reads_pure k

theorem NamedContract.reads {c : NamedContract} (h : c.Typed) : Codec.Reads NamedContract.unpack c.pack c (c.owners.size < 2 ^ 32) := by
  have hr : Codec.Reads NamedContract.unpack c.pack c (c.owners.size < 2 ^ 32 ∧ True) :=
    reads_version.then <| (reads_getPSTR h.name).then <|
      (reads_getSet h.owners).part NamedContract.owners ((reads_getPSTR h.src).then (reads_pure c)) rfl
        fun _ => .bind fun _ => .pure rfl
  exact hr.congr (and_iff_left trivial)

theorem reads_keys {m : StdMap Nat Key} (h : ∀ e ∈ m.toList, e.1 < 2 ^ 64 ∧ e.2.Typed) :
    Codec.Reads (unpackMap compare elements getPN Key.unpack) (packMap elements putPN Key.pack m) m (m.size < 2 ^ 32) := by
  refine reads_packMap_always (C := elements) (by decide) ?_ ?_
  · intro e he
    exact reads_getPN (h e he).1
  · intro e he
    exact Key.reads (h e he).2

theorem BcAddressState.reads {u : BcAddressState} (h : u.Typed) :
    Codec.Reads BcAddressState.unpack u.pack u
      (u.keys.size < 2 ^ 32 ∧ u.contracts.size < 2 ^ 32 ∧ u.ownedNodes.size < 2 ^ 32 ∧ u.stakedIn.size < 2 ^ 32 ∧ True) :=
  reads_version.then <| (reads_getInt64 h.nonce).then <| (reads_getInt64 h.balance).then <|
    (reads_keys h.keys).part BcAddressState.keys
      ((reads_getSet h.contracts).part BcAddressState.contracts
        ((reads_getSet h.ownedNodes).part BcAddressState.ownedNodes
          ((reads_getSet h.stakedIn).part BcAddressState.stakedIn (reads_pure u) rfl fun _ => .pure rfl)
          rfl fun _ => .bind fun _ => .pure rfl)
        rfl fun _ => .bind fun _ => .bind fun _ => .pure rfl)
      rfl fun _ => .bind fun _ => .bind fun _ => .bind fun _ => .pure rfl

theorem reads_getBlsPk {blsPkOk : String → Bool} {s : String} (h : s.length = 48 ∧ blsPkOk s = true) :
    Codec.Reads (getBlsPk blsPkOk) (putPSTR s) s True := by
  refine .always ?_
  intro r
  have hs : Sized s := by
    unfold Sized
    omega
  refine bind_eq_some.2 ⟨s, r, (reads_getPSTR hs).back trivial r, ?_⟩
  rw [if_pos h]
  rfl

theorem BcNode.reads {blsPkOk : String → Bool} {n : BcNode} (h : n.Typed blsPkOk) :
    Codec.Reads (BcNode.unpack blsPkOk) n.pack n (n.stakes.size < 2 ^ 32 ∧ True) :=
  reads_version.then <| (reads_getPSTR h.name).then <| (reads_getPSTR h.ownerAddress).then <|
    (reads_getBlsPk h.blsPk).then <| (reads_getPSTR h.edPk).then <| (reads_getPSTR h.ip).then <|
      (reads_getMap_always h.stakes fun _ => reads_getInt64).part BcNode.stakes
        ((reads_getBool n.enabled).then <| (reads_getInt h.missedRounds).then <| (reads_getInt64 h.answeredRounds).then <|
          reads_pure n)
        rfl fun _ => .bind fun _ => .bind fun _ => .bind fun _ => .pure rfl

theorem BcValues.reads {v : BcValues} (h : v.Typed) :
    Codec.Reads BcValues.unpack v.pack v (v.values.size < 2 ^ 32 ∧ v.emittersBin.size < 2 ^ 32 ∧ True) :=
  reads_version.then <|
    (reads_getMap_always h.values fun _ => reads_getInt64).part BcValues.values
      ((reads_getSet h.emittersBin).part BcValues.emittersBin (reads_pure v) rfl fun _ => .pure rfl)
      rfl fun _ => .bind fun _ => .pure rfl

theorem Vote.reads {z : Vote} (h : z.Typed) : Codec.Reads Vote.unpack z.pack z (z.nodes.size < 2 ^ 32) := by
  have hr : Codec.Reads Vote.unpack z.pack z (z.nodes.size < 2 ^ 32 ∧ True) :=
    (reads_getPSTR h.param).then <| (reads_getInt64 h.value).then <|
      (reads_getSet h.nodes).part Vote.nodes
        ((reads_getInt64 h.createTime).then <| (reads_getInt64 h.ttl).then <| reads_pure z)
        rfl fun _ => .bind fun _ => .bind fun _ => .pure rfl
  exact hr.congr (and_iff_left trivial)

/-- A 128-bit number comes back from its two halves. -/
theorem reads_getI128 {v : Int} (h : InI128 v) : Codec.Reads getI128 (putI128 v) v True := by
  unfold InI128 at h
  obtain ⟨z, hz⟩ : ∃ z, z = (if v < 0 then -2 * v - 1 else 2 * v).toNat := ⟨_, rfl⟩
  have hzlt : z < 2 ^ 128 := by
    rw [hz]
    split <;> omega
  have hval : (if z % 2 = 0 then ((z / 2 : Nat) : Int) else -((z / 2 : Nat) : Int) - 1) = v := by
    rw [hz]
    split <;> split <;> omega
  have hlo : z % 2 ^ 64 < 2 ^ 64 := by omega
  have hhi : z / 2 ^ 64 < 2 ^ 64 := by omega
  have hsum : z / 2 ^ 64 * 2 ^ 64 + z % 2 ^ 64 = z := by omega
  refine .always ?_
  intro r
  have hp : putI128 v = putPN (z % 2 ^ 64) ++ putPN (z / 2 ^ 64) := by simp [putI128, hz]
  rw [hp, List.append_assoc]
  refine bind_eq_some.2 ⟨_, _, (reads_getPN hlo).back trivial _, bind_eq_some.2 ⟨_, r, (reads_getPN hhi).back trivial r, ?_⟩⟩
  simp only [hsum, hval]
  rfl

theorem BcState.reads {s : BcState} (h : s.Typed) : Codec.Reads BcState.unpack s.pack s True :=
  reads_version.then <| (reads_getI128 h.totalSupply).then <| (reads_getI128 h.totalStake).then <|
    (reads_getInt64 h.accountCount).then <| (reads_getInt64 h.nodeCount).then <| (reads_getInt64 h.contractCount).then <|
      (reads_getInt64 h.txCount).then <| (reads_getInt64 h.blockHeight).then <| (reads_getInt64 h.genesisTime).then <|
        (reads_getInt64 h.chainId).then <| reads_pure s

/-- One field behind a version number. -/
theorem reads_versioned {α : Type} {u : Unpack α} {p : Buffer} {a : α} {ok : Prop} (h : Codec.Reads u p a ok) :
    Codec.Reads (versioned u) [putPN 1, p].flatten a ok := by
  have hp : Codec.Reads u [p].flatten a ok := by
    rw [List.flatten_singleton]
    exact h
  exact reads_version.then hp

/-- A payload comes back exactly if its containers are counted. -/
theorem PayloadImage.reads {blsPkOk : String → Bool} {c : PayloadImage} (h : c.Typed blsPkOk) :
    Codec.Reads (PayloadImage.unpack blsPkOk c.hsh) c.pack c c.Counted := by
  cases c with
  | contract v => exact (NamedContract.reads h).map fun _ _ he => by injection he
  | addressState v =>
    refine ((BcAddressState.reads h).map (F := PayloadImage.addressState) fun _ _ he => by injection he).congr ?_
    rw [and_true]
    exact Iff.rfl
  | node v => exact ((BcNode.reads h).map (F := PayloadImage.node) fun _ _ he => by injection he).congr (and_iff_left trivial)
  | nodelist list =>
    exact (reads_versioned (reads_getSet h)).map (F := PayloadImage.nodelist) fun _ _ he => by injection he
  | values v =>
    refine ((BcValues.reads h).map (F := PayloadImage.values) fun _ _ he => by injection he).congr ?_
    rw [and_true]
    exact Iff.rfl
  | contractData container =>
    exact (reads_versioned (reads_getPSTR h)).map (F := PayloadImage.contractData) fun _ _ he => by injection he
  | votes m =>
    exact (reads_versioned (reads_getMap h fun _ => Vote.reads)).map (F := PayloadImage.votes) fun _ _ he => by injection he
  | contractBalance amount =>
    exact (reads_versioned (reads_getInt64 h)).map (F := PayloadImage.contractBalance) fun _ _ he => by injection he
  | state v => exact (BcState.reads h).map (F := PayloadImage.state) fun _ _ he => by injection he
  | contractActivity name =>
    exact (reads_versioned (reads_getPSTR h)).map (F := PayloadImage.contractActivity) fun _ _ he => by injection he

/-! ## Cells -/

theorem Hsh.index_lt (h : Hsh) : h.index < 2 ^ 31 := by cases h <;> decide

theorem PayloadImage.ofIndex_hsh (c : PayloadImage) : Hsh.ofIndex c.hsh.index = c.hsh := by cases c <;> rfl

theorem PayloadImage.index_lt (c : PayloadImage) : c.hsh.index < Hsh.hshEnd.index := by
  cases c <;> simp [PayloadImage.hsh, Hsh.index]

theorem DataImage.reads {blsPkOk : String → Bool} {d : DataImage} (h : d.Typed blsPkOk) :
    Codec.Reads (DataImage.unpack blsPkOk d.content.hsh) d.pack d d.content.Counted := by
  have ht : InI32 d.type := by
    have := Hsh.index_lt d.content.hsh
    rw [h.type]
    unfold InI32
    omega
  have hr : Codec.Reads (DataImage.unpack blsPkOk d.content.hsh) d.pack d (d.content.Counted ∧ True) :=
    reads_version.then <| (reads_getInt ht).then <| (reads_getInt64 h.updateTime).then <| (reads_getInt h.ttl).then <|
      (PayloadImage.reads h.content).part DataImage.content (reads_pure d) rfl fun _ => .pure rfl
  exact hr.congr (and_iff_left trivial)

theorem reads_unpackData {blsPkOk : String → Bool} {idx : Nat} {o : Option DataImage}
    (h : ∀ d ∈ o, idx = d.content.hsh.index ∧ d.Typed blsPkOk) :
    Codec.Reads (unpackData blsPkOk idx) (packData o) o (∀ d ∈ o, d.content.Counted) := by
  cases o with
  | none =>
    have hnone : Codec.Reads (unpackData blsPkOk idx) (packData none) none True := by
      refine .always ?_
      intro r
      exact bind_eq_some.2 ⟨false, r, (reads_getBool false).back trivial r, rfl⟩
    refine hnone.congr ?_
    constructor
    · intro _ d hd
      cases hd
    · intro _
      trivial
  | some d =>
    obtain ⟨hidx, hd⟩ := h d rfl
    have hread : ∀ r, unpackData blsPkOk idx (packData (some d) ++ r) =
        (DataImage.unpack blsPkOk d.content.hsh >>= fun d => pure (some d)) (d.pack ++ r) := by
      intro r
      have hb := (reads_getBool true).back trivial (d.pack ++ r)
      rw [packData, List.append_assoc, unpackData]
      rw [bind_apply hb, if_pos rfl, hidx, if_pos (PayloadImage.index_lt _), PayloadImage.ofIndex_hsh]
    refine (((DataImage.reads hd).map (Option.some_injective _)).of_eq hread).congr ?_
    constructor
    · intro hok d' hd'
      cases hd'
      exact hok
    · intro hok
      exact hok d rfl

/-- A cell comes back exactly if its containers are counted. -/
theorem CellImage.reads {blsPkOk : String → Bool} {c : CellImage} (h : c.Typed blsPkOk) :
    Codec.Reads (CellImage.unpack blsPkOk) c.pack c c.Counted := by
  have hr : Codec.Reads (CellImage.unpack blsPkOk) c.pack c
      (c.childrenHashes.size < 2 ^ 32 ∧ (∀ d ∈ c.data, d.content.Counted) ∧ True) :=
    reads_version.then <| (reads_getUInt h.payloadCtorIdx).then <|
      (reads_getMap_always h.childrenHashes fun _ => reads_getPSTR).part CellImage.childrenHashes
        ((reads_unpackData h.data).part CellImage.data (reads_pure c) rfl fun _ => .pure rfl)
        rfl fun _ => .bind fun _ => .pure rfl
  refine hr.congr ?_
  rw [and_true]
  exact Iff.rfl

/-- Two cells of a well-formed state come back from their bytes, are told apart by them, and by their digests where these do not
collide: exactly if each container of the two has fewer than `2 ^ 32` elements. -/
theorem cells_come_back (blsPkOk : String → Bool) (c c' : CellImage) (h : c.Typed blsPkOk) (h' : c'.Typed blsPkOk) :
    (CellImage.unpack blsPkOk c.pack = some (c, []) ∧ CellImage.unpack blsPkOk c'.pack = some (c', []) ∧
      (c ≠ c' → c.pack ≠ c'.pack) ∧
      ∀ blake2b : Buffer → Buffer, (blake2b c.pack = blake2b c'.pack → c.pack = c'.pack) →
        blake2b c.pack = blake2b c'.pack → c = c') ↔ c.Counted ∧ c'.Counted := by
  have hr := CellImage.reads h
  have hr' := CellImage.reads h'
  constructor
  · rintro ⟨hc, hc', -, -⟩
    exact ⟨hr.iff_nil.1 hc, hr'.iff_nil.1 hc'⟩
  · rintro ⟨hok, hok'⟩
    have hinj : c.pack = c'.pack → c = c' := by
      intro he
      rw [he] at hr
      exact hr.inj hr' hok hok'
    refine ⟨hr.iff_nil.2 hok, hr'.iff_nil.2 hok', ?_, ?_⟩
    · intro hne he
      exact hne (hinj he)
    · intro blake2b hfree hhash
      exact hinj (hfree hhash)

theorem cells_come_back_sample :
    CellImage.unpack (fun _ => true) (CellImage.pack {}) = some ({}, []) ∧
      CellImage.pack {} ≠ CellImage.pack { data := some { type := 7, content := .contractBalance 5 }, payloadCtorIdx := 7 } := by
  have h : CellImage.Typed (fun _ => true) {} :=
    ⟨by decide, sizedMap_empty _, fun d hd => by cases hd⟩
  have h' : CellImage.Typed (fun _ => true) { data := some { type := 7, content := .contractBalance 5 }, payloadCtorIdx := 7 } := by
    refine ⟨by decide, sizedMap_empty _, ?_⟩
    intro d hd
    cases hd
    exact ⟨rfl, rfl, by decide, by unfold InI32; decide, (by decide : InI64 5)⟩
  have hc := (cells_come_back (fun _ => true) _ _ h h').2
    ⟨⟨by decide, fun d hd => by cases hd⟩, by decide, fun d hd => by cases hd; exact trivial⟩
  refine ⟨hc.1, hc.2.2.1 ?_⟩
  intro he
  cases congrArg CellImage.payloadCtorIdx he

/-- The name of four bytes with a number. -/
def numberedName (n : Nat) : String :=
  String.ofList [Char.ofNat (n / 2 ^ 24 % 256), Char.ofNat (n / 2 ^ 16 % 256), Char.ofNat (n / 2 ^ 8 % 256), Char.ofNat (n % 256)]

/-- A set of `2 ^ 32` nodes. -/
def allNumbered : StdSet String := .ofList ((List.range (2 ^ 32)).map numberedName) compare

theorem numberedName_inj {m n : Nat} (hm : m < 2 ^ 32) (hn : n < 2 ^ 32) (h : numberedName m = numberedName n) : m = n := by
  have hl := String.ofList_injective h
  simp only [List.cons.injEq, and_true] at hl
  obtain ⟨h3, h2, h1, h0⟩ := hl
  have e3 := congrArg Char.toNat h3
  have e2 := congrArg Char.toNat h2
  have e1 := congrArg Char.toNat h1
  have e0 := congrArg Char.toNat h0
  rw [toNat_ofNat (by omega), toNat_ofNat (by omega)] at e0 e1 e2 e3
  omega

theorem size_allNumbered : allNumbered.size = 2 ^ 32 := by
  rw [allNumbered, Std.ExtTreeSet.size_ofList, List.length_map, List.length_range]
  rw [List.pairwise_map]
  refine List.nodup_range.imp_of_mem ?_
  intro m n hm hn hne he
  rw [List.mem_range] at hm hn
  exact hne (numberedName_inj hm hn (Std.LawfulEqCmp.compare_eq_iff_eq.1 he))

theorem sized_allNumbered : SizedSet allNumbered := by
  intro a ha
  rw [allNumbered, Std.ExtTreeSet.mem_ofList, List.contains_iff_mem, List.mem_map] at ha
  obtain ⟨n, -, rfl⟩ := ha
  rw [Sized, numberedName, String.length_ofList]
  exact (by decide : (4 : Nat) < 2 ^ 64)

/-- The list of `2 ^ 32` nodes does not come back. -/
theorem cells_come_back_false :
    ¬ ∀ c : CellImage, c.Typed (fun _ => true) → CellImage.unpack (fun _ => true) c.pack = some (c, []) := by
  intro hall
  have h : CellImage.Typed (fun _ => true) { data := some { type := 3, content := .nodelist allNumbered }, payloadCtorIdx := 3 } := by
    refine ⟨by decide, sizedMap_empty _, ?_⟩
    intro d hd
    cases hd
    exact ⟨rfl, rfl, by decide, by unfold InI32; decide, sized_allNumbered⟩
  have hok := ((CellImage.reads h).iff_nil.1 (hall _ h)).2 _ rfl
  have hsize : allNumbered.size < 2 ^ 32 := hok
  rw [size_allNumbered] at hsize
  exact Nat.lt_irrefl _ hsize

end Grain
