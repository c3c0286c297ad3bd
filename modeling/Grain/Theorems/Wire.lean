import Grain.Theorems.Pack
import Grain.Wire

/-!
# Packed messages come back

Every message of the block protocol that is complete and whose type the factory knows is read back from its bytes, whatever
follows them, exactly if each of its containers has a number of elements that an `unsigned int` holds.
-/

namespace Grain

open Codec

/-! ## References and parts -/

/-- An object behind a reference comes back if it does on its own. -/
theorem reads_getRef {α : Type} {u : Unpack α} {type : Nat} {fields : List Buffer} {v : α} {ok : Prop} (ht : type < 2 ^ 64)
    (h : Codec.Reads u fields.flatten v ok) : Codec.Reads (getRef type u) (putRef (packBase type fields)) v ok := by
  refine h.of_eq ?_
  intro r
  have hver := reads_version.back trivial (packBase type fields ++ r)
  have htype := (reads_getPN ht).back trivial (fields.flatten ++ r)
  rw [packBase, List.append_assoc] at hver
  rw [putRef, packBase, List.append_assoc, List.append_assoc, getRef]
  rw [bind_apply hver, unpack2, bind_apply htype, if_neg (not_not.2 rfl)]

theorem reads_getAggSig {sigOk : String → Bool} {s : String} (h : s.length = 96 ∧ sigOk s = true) :
    Codec.Reads (getAggSig sigOk) (putPSTR s) (some s) True := by
  refine .always ?_
  intro r
  have hs : Sized s := by
    unfold Sized
    omega
  refine bind_eq_some.2 ⟨s, r, (reads_getPSTR hs).back trivial r, ?_⟩
  rw [if_pos h]
  rfl

theorem reads_getStrings {l : List String} (h : ∀ a ∈ l, Sized a) : Codec.Reads getStrings (putStrings l) l (l.length < 2 ^ 32) := by
  refine reads_packList_always (C := elements) (by decide) ?_
  intro a ha
  exact reads_getPSTR (h a ha)

/-! ## Heartbeats, certificates and transactions -/

theorem HeartBeatREQ.reads {h : HeartBeatREQ} (ht : h.Typed) : Codec.Reads HeartBeatREQ.unpack h.fields.flatten h True :=
  (reads_getPSTR ht.prevRootHash1).then <| (reads_getPSTR ht.nodeLeader).then <| (reads_getInt64 ht.newEpoch).then <|
    (reads_getInt64 ht.blockTimestamp).then <| reads_pure h

theorem TX.reads {t : TX} (ht : t.Typed) : Codec.Reads TX.unpack t.fields.flatten t True :=
  (reads_getPSTR ht.txBody).then <| (reads_getPSTR ht.pkEdBin).then <| (reads_getPSTR ht.sigEdBin).then <| reads_pure t

theorem BlockInfo.reads {b : BlockInfo} (ht : b.Typed) : Codec.Reads BlockInfo.unpack b.fields.flatten b True :=
  (reads_getPSTR ht.newRootHash1).then <| (reads_getPSTR ht.attDataHash).then <| (reads_getPSTR ht.txHash).then <|
    (reads_getPSTR ht.diffsHash).then <| (reads_getRef (by decide) (HeartBeatREQ.reads ht.heartBeat)).then <| reads_pure b

namespace Wire

theorem LeaderCert.reads {sigOk : String → Bool} {x : LeaderCert} {l : List Buffer} (h : x.Typed sigOk) (hl : x.fields = some l) :
    Codec.Reads (LeaderCert.unpack sigOk) l.flatten x (x.nodeValidators.size < 2 ^ 32) := by
  obtain ⟨hb, nodeValidators, aggSig⟩ := x
  cases aggSig with
  | none => cases hl
  | some s =>
    cases hl
    have hr : Codec.Reads (LeaderCert.unpack sigOk) [putRef hb.pack, putSet nodeValidators, putPSTR s].flatten
        { hb := hb, nodeValidators := nodeValidators, aggSig := some s } (nodeValidators.size < 2 ^ 32 ∧ True) :=
      (reads_getRef (by decide) (HeartBeatREQ.reads h.hb)).then <|
        (reads_getSet h.nodeValidators).part LeaderCert.nodeValidators
          ((reads_getAggSig (h.aggSig s rfl)).then (reads_pure _)) rfl fun _ => .bind fun _ => .pure rfl
    exact hr.congr (and_iff_left trivial)

theorem BlockAcceptedREQ.reads {sigOk : String → Bool} {x : BlockAcceptedREQ} {l : List Buffer} (h : x.Typed sigOk)
    (hl : x.fields = some l) : Codec.Reads (BlockAcceptedREQ.unpack sigOk) l.flatten x (x.nodeValidators.length < 2 ^ 32) := by
  obtain ⟨blockInfo, nodeValidators, aggSig⟩ := x
  cases aggSig with
  | none => cases hl
  | some s =>
    cases hl
    have hr : Codec.Reads (BlockAcceptedREQ.unpack sigOk) [putRef blockInfo.pack, putStrings nodeValidators, putPSTR s].flatten
        { blockInfo := blockInfo, nodeValidators := nodeValidators, aggSig := some s } (nodeValidators.length < 2 ^ 32 ∧ True) :=
      (reads_getRef (by decide) (BlockInfo.reads h.blockInfo)).then <|
        (reads_getStrings h.nodeValidators).part BlockAcceptedREQ.nodeValidators
          ((reads_getAggSig (h.aggSig s rfl)).then (reads_pure _)) rfl fun _ => .bind fun _ => .pure rfl
    exact hr.congr (and_iff_left trivial)

theorem BlockAccepted2REQ.reads {sigOk : String → Bool} {x : BlockAccepted2REQ} {l : List Buffer} (h : x.Typed sigOk)
    (hl : x.fields = some l) : Codec.Reads (BlockAccepted2REQ.unpack sigOk) l.flatten x
      (x.blockAcceptedREQ.nodeValidators.length < 2 ^ 32 ∧ x.nodeDiffValidators.length < 2 ^ 32) := by
  obtain ⟨blockAcceptedREQ, nodeDiffValidators, aggDiffSig⟩ := x
  cases hf : blockAcceptedREQ.fields with
  | none => simp [BlockAccepted2REQ.fields, hf] at hl
  | some f =>
    cases aggDiffSig with
    | none => simp [BlockAccepted2REQ.fields, hf] at hl
    | some s =>
      have hl' : l = [putRef (packBase 5 f), putStrings nodeDiffValidators, putPSTR s] := by
        simpa [BlockAccepted2REQ.fields, hf] using hl.symm
      subst hl'
      have hr : Codec.Reads (BlockAccepted2REQ.unpack sigOk) [putRef (packBase 5 f), putStrings nodeDiffValidators, putPSTR s].flatten
          { blockAcceptedREQ := blockAcceptedREQ, nodeDiffValidators := nodeDiffValidators, aggDiffSig := some s }
          (blockAcceptedREQ.nodeValidators.length < 2 ^ 32 ∧ nodeDiffValidators.length < 2 ^ 32 ∧ True) :=
        (reads_getRef (by decide) (BlockAcceptedREQ.reads h.blockAcceptedREQ hf)).part BlockAccepted2REQ.blockAcceptedREQ
          ((reads_getStrings h.nodeDiffValidators).part BlockAccepted2REQ.nodeDiffValidators
            ((reads_getAggSig (h.aggDiffSig s rfl)).then (reads_pure _)) rfl fun _ => .bind fun _ => .pure rfl)
          rfl fun _ => .bind fun _ => .bind fun _ => .pure rfl
      refine hr.congr ?_
      rw [and_true]

end Wire

/-! ## Attachments -/

theorem EmitChildren.ofEntries_entries (ch : EmitChildren) : .ofEntries ch.entries = ch := by
  cases ch with
  | nil => rfl
  | cons key node rest => rw [EmitChildren.entries, EmitChildren.ofEntries, EmitChildren.ofEntries_entries rest]

theorem EmitChildren.entries_ofEntries (l : List (String × EmitNode)) : (EmitChildren.ofEntries l).entries = l := by
  induction l with
  | nil => rfl
  | cons e l ih => rw [EmitChildren.ofEntries, EmitChildren.entries, ih]

theorem EmitChildren.pack_eq (ch : EmitChildren) : ch.pack = ch.entries.flatMap (packEntry putPSTR EmitNode.pack) := by
  cases ch with
  | nil => rfl
  | cons key node rest =>
    rw [EmitChildren.pack, EmitChildren.entries, List.flatMap_cons, EmitChildren.pack_eq rest]
    rfl

theorem EmitChildren.all_iff {P : List (String × String) → List (String × EmitNode) → Prop} (ch : EmitChildren) :
    ch.All P ↔ ∀ e ∈ ch.entries, e.2.All P := by
  cases ch with
  | nil => simp [EmitChildren.All, EmitChildren.entries]
  | cons key node rest => simp [EmitChildren.All, EmitChildren.entries, EmitChildren.all_iff rest]

mutual

/-- A property that passes from the children to their parent holds of every node. -/
theorem EmitNode.ind {P : EmitNode → Prop} (h : ∀ emits ch, (∀ e ∈ EmitChildren.entries ch, P e.2) → P (.mk emits ch)) : ∀ t, P t
  | .mk emits ch => h emits ch (EmitChildren.ind h ch)

theorem EmitChildren.ind {P : EmitNode → Prop} (h : ∀ emits ch, (∀ e ∈ EmitChildren.entries ch, P e.2) → P (.mk emits ch)) :
    ∀ ch : EmitChildren, ∀ e ∈ ch.entries, P e.2
  | .nil => by
    intro e he
    cases he
  | .cons key node rest => by
    intro e he
    rw [EmitChildren.entries, List.mem_cons] at he
    obtain rfl | he := he
    · exact EmitNode.ind h node
    · exact EmitChildren.ind h rest e he

end

/-- The emits of a node. -/
def EmitNode.emits : EmitNode → List (String × String)
  | .mk emits _ => emits

theorem length_le_flatMap {α : Type} {l : List α} {f : α → Buffer} {a : α} (h : a ∈ l) :
    (f a).length ≤ (l.flatMap f).length := by
  rw [List.length_flatMap]
  exact List.le_sum_of_mem (List.mem_map_of_mem h)

theorem reads_emits {emits : List (String × String)} (h : ∀ e ∈ emits, Sized e.1 ∧ Sized e.2) :
    Codec.Reads (unpackList elements (unpackEntry getPSTR getPSTR)) (packList elements (packEntry putPSTR putPSTR) emits) emits
      (emits.length < 2 ^ 32) := by
  refine reads_packList_always (C := elements) (by decide) ?_
  intro e he
  exact @reads_packEntry _ _ _ _ _ _ _ (fun _ => True) e (reads_getPSTR (h e he).1) (reads_getPSTR (h e he).2)

/-- A node comes back exactly if its levels are counted. The levels that are left suffice: each takes a byte at least. -/
theorem EmitNode.reads_levels (t : EmitNode) :
    ∀ n, t.Typed → t.pack.length ≤ n → Codec.Reads (EmitNode.unpackLevels n) t.pack t t.Counted := by
  induction t using EmitNode.ind with
  | h emits ch ih =>
    rintro n ⟨⟨hemits, hkeys, hsorted⟩, hbelow⟩ hn
    have hbelow := (EmitChildren.all_iff ch).1 hbelow
    have hcount := length_putPN_pos (ch.entries.length % 2 ^ 32)
    obtain ⟨m, hm⟩ : ∃ m : StdMap String EmitNode, m = addEntries ∅ ch.entries := ⟨_, rfl⟩
    have hlist : m.toList = ch.entries := by
      rw [hm]
      exact toList_addEntries hsorted
    have hsize : m.size = ch.entries.length := by rw [← hlist, Std.ExtTreeMap.length_toList]
    have hchildren : putMap EmitNode.pack m = putCount ch.entries.length ++ ch.pack := by
      rw [EmitChildren.pack_eq, ← hlist]
      rfl
    have hpack : (EmitNode.mk emits ch).pack =
        [packList elements (packEntry putPSTR putPSTR) emits, putMap EmitNode.pack m].flatten := by
      simp [EmitNode.pack, hchildren]
    have hlen : ch.pack.length < n := by
      rw [EmitNode.pack, List.length_append, List.length_append, putCount] at hn
      omega
    cases n with
    | zero => exact absurd hlen (Nat.not_lt_zero _)
    | succ n =>
      have hmap : Codec.Reads (getMap (EmitNode.unpackLevels n)) (putMap EmitNode.pack m) m
          (m.size < 2 ^ 32 ∧ ∀ e ∈ m.toList, e.2.Counted) := by
        refine reads_packMap (C := elements) (by decide) ?_ ?_
        · intro e he
          rw [hlist] at he
          exact reads_getPSTR (hkeys e he)
        · intro e he
          rw [hlist] at he
          refine ih e he n (hbelow e he) ?_
          have hle := @length_le_flatMap _ _ (packEntry putPSTR EmitNode.pack) _ he
          rw [← EmitChildren.pack_eq, packEntry, List.length_append] at hle
          omega
      have hinj : Function.Injective fun m : StdMap String EmitNode => EmitNode.mk emits (.ofEntries m.toList) := by
        intro m1 m2 he
        injection he with _ he
        have := congrArg EmitChildren.entries he
        rw [EmitChildren.entries_ofEntries, EmitChildren.entries_ofEntries] at this
        exact Std.ExtTreeMap.ext_toList (by rw [this])
      have hrest := hmap.map hinj
      simp only [hlist, EmitChildren.ofEntries_entries] at hrest
      rw [← List.flatten_singleton (l := putMap EmitNode.pack m)] at hrest
      have hr : Codec.Reads (EmitNode.unpackLevels (n + 1))
          [packList elements (packEntry putPSTR putPSTR) emits, putMap EmitNode.pack m].flatten (.mk emits ch) _ :=
        (reads_emits hemits).part EmitNode.emits hrest rfl fun _ => .bind fun _ => .pure rfl
      rw [hpack]
      refine hr.congr ?_
      rw [hsize, EmitNode.Counted, EmitNode.All, EmitChildren.all_iff, and_assoc]
      exact Iff.rfl

theorem EmitNode.reads {t : EmitNode} (h : t.Typed) : Codec.Reads EmitNode.unpack t.pack t t.Counted := by
  refine Codec.Reads.nested ?_
  intro n hn
  exact EmitNode.reads_levels t n h hn

theorem AttachmentData.reads {a : AttachmentData} (h : a.Typed) : Codec.Reads AttachmentData.unpack a.fields.flatten a a.Counted := by
  have hr : Codec.Reads AttachmentData.unpack a.fields.flatten a
      (a.fees.size < 2 ^ 32 ∧ a.rewards.size < 2 ^ 32 ∧ a.blockRoot.Counted ∧ True) :=
    (reads_getMap_always h.fees fun _ => reads_getInt64).part AttachmentData.fees
      ((reads_getMap_always h.rewards fun _ => reads_getInt64).part AttachmentData.rewards
        ((EmitNode.reads h.blockRoot).part AttachmentData.blockRoot (reads_pure a) rfl fun _ => .pure rfl)
        rfl fun _ => .bind fun _ => .pure rfl)
      rfl fun _ => .bind fun _ => .bind fun _ => .pure rfl
  refine hr.congr ?_
  rw [and_true]
  exact Iff.rfl

namespace Wire

theorem reads_getAttData {a : AttachmentData} (h : a.Typed) : Codec.Reads getAttData (putRef a.pack) (some a) a.Counted :=
  (reads_getRef (by decide) (AttachmentData.reads h)).map (Option.some_injective _)

theorem BlockDBStore.reads {sigOk : String → Bool} {x : BlockDBStore} {l : List Buffer} (h : x.Typed sigOk)
    (hl : x.fields = some l) : Codec.Reads (BlockDBStore.unpack sigOk) l.flatten x (Msg.blockDBStore x).Counted := by
  obtain ⟨blockAccepted2REQ, txHashes, diffs, attData⟩ := x
  cases hf : blockAccepted2REQ.fields with
  | none => simp [BlockDBStore.fields, hf] at hl
  | some f =>
    cases attData with
    | none => simp [BlockDBStore.fields, hf] at hl
    | some a =>
      have hl' : l = [putRef (packBase 20 f), putStrings txHashes, putMap putPSTR diffs, putRef a.pack] := by
        simpa [BlockDBStore.fields, hf] using hl.symm
      subst hl'
      have hb := reads_getRef (by decide : 20 < 2 ^ 64) (BlockAccepted2REQ.reads h.blockAccepted2REQ hf)
      have hr : Codec.Reads (BlockDBStore.unpack sigOk)
          [putRef (packBase 20 f), putStrings txHashes, putMap putPSTR diffs, putRef a.pack].flatten
          { blockAccepted2REQ := blockAccepted2REQ, txHashes := txHashes, diffs := diffs, attData := some a } _ :=
        hb.part BlockDBStore.blockAccepted2REQ
        ((reads_getStrings h.txHashes).part BlockDBStore.txHashes
          ((reads_getMap_always h.diffs fun _ => reads_getPSTR).part BlockDBStore.diffs
            ((reads_getAttData (h.attData a rfl)).part BlockDBStore.attData
              (reads_pure _) rfl fun _ => .pure rfl)
            rfl fun _ => .bind fun _ => .pure rfl)
          rfl fun _ => .bind fun _ => .bind fun _ => .pure rfl)
        rfl fun _ => .bind fun _ => .bind fun _ => .bind fun _ => .pure rfl
      refine hr.congr ?_
      simp [Msg.Counted]

end Wire

/-! ## Trees -/

theorem NodeElement.reads {t : NodeElement} (h : t.Typed) : Codec.Reads NodeElement.unpack t.pack t True :=
  (reads_getPSTR h.name).then <| (reads_getInt64 h.stakeA).then <| (reads_getPSTR h.ip).then <| reads_pure t

theorem TreeNode.packAll_eq (l : List TreeNode) : TreeNode.packAll l = l.flatMap TreeNode.pack := by
  induction l with
  | nil => rfl
  | cons t l ih => rw [TreeNode.packAll, List.flatMap_cons, ih]

/-- A tree comes back exactly if its children are counted. -/
theorem TreeNode.reads_levels (t : TreeNode) :
    ∀ n, t.Typed → (TreeNode.pack t).length ≤ n → Codec.Reads (TreeNode.unpackLevels n) (TreeNode.pack t) t t.Counted := by
  induction t using Rose.ind with
  | h node ch ih =>
    rintro n ht hn
    obtain ⟨hnode, hbelow⟩ := Rose.all_mk.1 ht
    have hcount := length_putPN_pos (ch.length % 2 ^ 32)
    have hpack : TreeNode.pack (.mk node ch) = [node.pack, packList elements TreeNode.pack ch].flatten := by
      rw [TreeNode.pack, TreeNode.packAll_eq]
      simp [packList, elements]
    have hlen : (ch.flatMap TreeNode.pack).length < n := by
      rw [TreeNode.pack, TreeNode.packAll_eq, List.length_append, List.length_append, putCount] at hn
      omega
    cases n with
    | zero => exact absurd hlen (Nat.not_lt_zero _)
    | succ n =>
      have hch : Codec.Reads (unpackList elements (TreeNode.unpackLevels n)) (packList elements TreeNode.pack ch) ch
          (ch.length < 2 ^ 32 ∧ ∀ t ∈ ch, TreeNode.Counted t) := by
        refine reads_packList (C := elements) (by decide) ?_
        intro t ht
        refine ih t ht n (hbelow t ht) ?_
        have hle := @length_le_flatMap _ _ TreeNode.pack _ ht
        omega
      have hrest := hch.map (F := fun ch => Rose.mk node ch) fun _ _ he => by injection he
      rw [← List.flatten_singleton (l := packList elements TreeNode.pack ch)] at hrest
      rw [hpack]
      refine ((NodeElement.reads hnode).then hrest).congr ?_
      rw [TreeNode.Counted, Rose.all_mk]
      exact Iff.rfl

theorem TreeNode.reads {t : TreeNode} (h : t.Typed) : Codec.Reads TreeNode.unpack (TreeNode.pack t) t t.Counted := by
  refine Codec.Reads.nested ?_
  intro n hn
  exact TreeNode.reads_levels t n h hn

/-! ## The factory -/

namespace Wire

/-- A message comes back from its fields exactly if its containers are counted. -/
theorem Msg.reads {sigOk : String → Bool} {m : Msg} {l : List Buffer} (h : m.Typed sigOk) (hl : m.fields = some l) :
    Codec.Reads (Msg.unpack sigOk m.type) l.flatten m m.Counted := by
  cases m with
  | heartBeatREQ x =>
    cases hl
    exact (HeartBeatREQ.reads h).map fun _ _ he => by injection he
  | blockInfo x =>
    cases hl
    exact (BlockInfo.reads h).map fun _ _ he => by injection he
  | blockAcceptedREQ x => exact (BlockAcceptedREQ.reads h hl).map fun _ _ he => by injection he
  | blockDBStore x => exact (BlockDBStore.reads h hl).map fun _ _ he => by injection he
  | tx x =>
    cases hl
    exact (TX.reads h).map fun _ _ he => by injection he
  | attachmentData x =>
    cases hl
    exact (AttachmentData.reads h).map fun _ _ he => by injection he
  | blockAccepted2REQ x => exact (BlockAccepted2REQ.reads h hl).map fun _ _ he => by injection he
  | leaderCert x => exact (LeaderCert.reads h hl).map fun _ _ he => by injection he

/-- A message has bytes exactly if it is complete. -/
theorem Msg.isSome_fields (m : Msg) : m.fields.isSome ↔ m.Complete := by
  cases m with
  | heartBeatREQ x => exact ⟨fun _ => trivial, fun _ => rfl⟩
  | blockInfo x => exact ⟨fun _ => trivial, fun _ => rfl⟩
  | tx x => exact ⟨fun _ => trivial, fun _ => rfl⟩
  | attachmentData x => exact ⟨fun _ => trivial, fun _ => rfl⟩
  | leaderCert x =>
    obtain ⟨_, _, aggSig⟩ := x
    cases aggSig <;> simp [Msg.fields, LeaderCert.fields, Msg.Complete]
  | blockAcceptedREQ x =>
    obtain ⟨_, _, aggSig⟩ := x
    cases aggSig <;> simp [Msg.fields, BlockAcceptedREQ.fields, Msg.Complete]
  | blockAccepted2REQ x =>
    obtain ⟨⟨_, _, aggSig⟩, _, aggDiffSig⟩ := x
    cases aggSig <;> cases aggDiffSig <;>
      simp [Msg.fields, BlockAccepted2REQ.fields, BlockAcceptedREQ.fields, Msg.Complete]
  | blockDBStore x =>
    obtain ⟨⟨⟨_, _, aggSig⟩, _, aggDiffSig⟩, _, _, attData⟩ := x
    cases aggSig <;> cases aggDiffSig <;> cases attData <;>
      simp [Msg.fields, BlockDBStore.fields, BlockAccepted2REQ.fields, BlockAcceptedREQ.fields, Msg.Complete]

theorem reads_getInt_putPN {n : Nat} (h : n < 2 ^ 31) : Codec.Reads getInt (putPN n) (n : Int) True := by
  have hput : putInt (n : Int) = putPN n := by
    rw [putInt]
    congr 1
    omega
  rw [← hput]
  refine reads_getInt ?_
  unfold InI32
  omega

theorem Msg.type_lt (m : Msg) : m.type < 2 ^ 31 := by cases m <;> simp [Msg.type]

/-- What is received of a message: the factory has to know its type. -/
theorem Msg.receive_append (sigOk : String → Bool) (m : Msg) (l : List Buffer) (r : Buffer) :
    Msg.receive sigOk (packBase m.type l ++ r) =
      if m.type ∈ registry then Msg.unpack sigOk m.type (l.flatten ++ r) else none := by
  have hid := (reads_getInt_putPN m.type_lt).back trivial (l.flatten ++ r)
  rw [packBase, List.append_assoc, Msg.receive, bind_apply hid, Int.toNat_natCast]
  split <;> rename_i h
  · rw [if_pos h.1]
  · rw [if_neg]
    · rfl
    · intro hin
      exact h ⟨hin, by omega⟩

/-- A message of the block protocol has bytes from which it is received, whatever follows them, exactly if it is complete, the
factory knows its type, and each of its containers has fewer than `2 ^ 32` elements; a tree is read back from its bytes exactly
if every node has fewer than `2 ^ 32` children. -/
theorem messages_come_back (sigOk : String → Bool) :
    (∀ m : Msg, m.Typed sigOk →
      ((∃ p, m.pack = some p ∧ ∀ r, Msg.receive sigOk (p ++ r) = some (m, r)) ↔
        m.Complete ∧ m.type ∈ registry ∧ m.Counted)) ∧
    ∀ t : TreeNode, TreeNode.Typed t → ((∀ r, TreeNode.unpack (TreeNode.pack t ++ r) = some (t, r)) ↔ TreeNode.Counted t) := by
  refine ⟨?_, ?_⟩
  · intro m h
    constructor
    · rintro ⟨p, hp, hback⟩
      obtain ⟨l, hl, rfl⟩ := Option.map_eq_some_iff.1 hp
      have hcomplete : m.Complete := by
        rw [← Msg.isSome_fields, hl]
        rfl
      have hreg : m.type ∈ registry := by
        by_contra hn
        have := hback []
        rw [Msg.receive_append, if_neg hn] at this
        cases this
      refine ⟨hcomplete, hreg, (Msg.reads h hl).iff_forall.1 ?_⟩
      intro r
      have := hback r
      rwa [Msg.receive_append, if_pos hreg] at this
    · rintro ⟨hcomplete, hreg, hcounted⟩
      rw [← Msg.isSome_fields, Option.isSome_iff_exists] at hcomplete
      obtain ⟨l, hl⟩ := hcomplete
      refine ⟨packBase m.type l, by rw [Msg.pack, hl]; rfl, ?_⟩
      intro r
      rw [Msg.receive_append, if_pos hreg]
      exact (Msg.reads h hl).back hcounted r
  · intro t h
    exact (TreeNode.reads h).iff_forall

theorem heartBeat_typed : ({ newEpoch := 5, nodeLeader := "n1" } : HeartBeatREQ).Typed where
  prevRootHash1 := (by decide : (0 : Nat) < 2 ^ 64)
  newEpoch := (by decide : InI64 5)
  nodeLeader := (by decide : (2 : Nat) < 2 ^ 64)
  blockTimestamp := (by decide : InI64 0)

theorem messages_come_back_sample :
    (∃ p, (Msg.heartBeatREQ { newEpoch := 5, nodeLeader := "n1" }).pack = some p ∧
      ∀ r, Msg.receive (fun _ => true) (p ++ r) = some (.heartBeatREQ { newEpoch := 5, nodeLeader := "n1" }, r)) ∧
    ∀ r, TreeNode.unpack (TreeNode.pack (.mk { name := "fake" } []) ++ r) = some (.mk { name := "fake" } [], r) := by
  have hc := messages_come_back fun _ => true
  have ht : TreeNode.Typed (.mk { name := "fake" } []) := by
    refine Rose.all_mk.2 ⟨⟨(by decide : (4 : Nat) < 2 ^ 64), (by decide : InI64 0), (by decide : (0 : Nat) < 2 ^ 64)⟩, ?_⟩
    intro t ht
    cases ht
  have hn : TreeNode.Counted (.mk { name := "fake" } []) := by
    refine Rose.all_mk.2 ⟨(by decide : (0 : Nat) < 2 ^ 32), ?_⟩
    intro t ht
    cases ht
  exact ⟨(hc.1 (.heartBeatREQ _) heartBeat_typed).2 ⟨trivial, by decide, trivial⟩, (hc.2 _ ht).2 hn⟩

/-- The compressed form of the point at infinity, which `blst_p2_uncompress` takes. -/
def infinitySig : String := String.ofList (Char.ofNat 0xc0 :: List.replicate 95 (Char.ofNat 0))

/-- The certificate of a leader does not come back: the factory does not know its type. -/
theorem messages_come_back_false :
    ¬ ∀ m : Msg, m.Typed (fun _ => true) → m.Complete →
      ∃ p, m.pack = some p ∧ ∀ r, Msg.receive (fun _ => true) (p ++ r) = some (m, r) := by
  intro hall
  have ht : (Msg.leaderCert { hb := { newEpoch := 5, nodeLeader := "n1" }, aggSig := some infinitySig }).Typed fun _ => true := by
    refine ⟨heartBeat_typed, ?_, ?_⟩
    · intro a ha
      simp at ha
    · intro s hs
      cases hs
      exact ⟨rfl, rfl⟩
  obtain ⟨p, hp, hback⟩ := hall _ ht rfl
  obtain ⟨l, -, rfl⟩ := Option.map_eq_some_iff.1 hp
  have hnone := Msg.receive_append (fun _ => true)
    (.leaderCert { hb := { newEpoch := 5, nodeLeader := "n1" }, aggSig := some infinitySig }) l []
  rw [if_neg (by decide), hback []] at hnone
  cases hnone

end Wire

end Grain
