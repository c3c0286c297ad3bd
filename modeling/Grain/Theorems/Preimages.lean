import Grain.Messages

/-!
# What a hash preimage says about the value

The streams that are hashed and signed concatenate their fields without lengths or separators. Two values with the same stream
are equal exactly when they cut it at the same places (`SameCuts`); otherwise bytes can move from one field into the next.
-/

namespace Grain

/-! ## Strings -/

/-- Two concatenations whose first parts have the same length are equal part by part. -/
theorem append_inj_of_length {a b c d : String} (h : a ++ b = c ++ d) (hl : a.length = c.length) : a = c ∧ b = d := by
  have hlist : a.toList ++ b.toList = c.toList ++ d.toList := by
    rw [← String.toList_append, ← String.toList_append, h]
  have hlen : a.toList.length = c.toList.length := by
    rw [String.length_toList, String.length_toList, hl]
  obtain ⟨h1, h2⟩ := List.append_inj hlist hlen
  exact ⟨String.toList_injective h1, String.toList_injective h2⟩

/-- The same with something after the second parts. -/
theorem append_append_inj_left {a b r c d r' : String} (h : a ++ b ++ r = c ++ d ++ r') (hl : a.length = c.length) :
    a = c ∧ b ++ r = d ++ r' := by
  rw [String.append_assoc, String.append_assoc] at h
  exact append_inj_of_length h hl

theorem append_append_inj_of_length {a b r c d r' : String} (h : a ++ b ++ r = c ++ d ++ r') (h1 : a.length = c.length)
    (h2 : b.length = d.length) : a = c ∧ b = d ∧ r = r' := by
  obtain ⟨ha, h⟩ := append_append_inj_left h h1
  obtain ⟨hb, hr⟩ := append_inj_of_length h h2
  exact ⟨ha, hb, hr⟩

/-! ## Cuts -/

/-- The same cuts: the fields have the same lengths in the stream. -/
def HeartBeatREQ.SameCuts (x y : HeartBeatREQ) : Prop :=
  x.prevRootHash1.length = y.prevRootHash1.length ∧ x.newEpoch.repr.length = y.newEpoch.repr.length ∧
    x.nodeLeader.length = y.nodeLeader.length

def TX.SameCuts (x y : TX) : Prop := x.txBody.length = y.txBody.length

def BlockInfo.SameCuts (x y : BlockInfo) : Prop :=
  x.newRootHash1.length = y.newRootHash1.length ∧ x.txHash.length = y.txHash.length ∧
    x.diffsHash.length = y.diffsHash.length ∧ x.attDataHash.length = y.attDataHash.length ∧ x.heartBeat.SameCuts y.heartBeat ∧
    x.heartBeat.blockTimestamp.repr.length = y.heartBeat.blockTimestamp.repr.length

def BlockAcceptedREQ.SameCuts (x y : BlockAcceptedREQ) : Prop :=
  x.blockInfo.SameCuts y.blockInfo ∧ x.nodeValidators.map String.length = y.nodeValidators.map String.length

/-- The same cuts in lists of pairs of strings. -/
def SameCutsPairs (x y : List (String × String)) : Prop :=
  x.map (fun p => (p.1.length, p.2.length)) = y.map fun p => (p.1.length, p.2.length)

/-- The same cuts in lists of amounts. -/
def SameCutsAmounts (x y : List (String × Int)) : Prop :=
  x.map (fun p => (p.1.length, p.2.repr.length)) = y.map fun p => (p.1.length, p.2.repr.length)

mutual

/-- The same cuts, level by level. -/
def EmitNode.SameCuts : EmitNode → EmitNode → Prop
  | .mk emits children, .mk emits' children' => SameCutsPairs emits emits' ∧ children.SameCuts children'

def EmitChildren.SameCuts : EmitChildren → EmitChildren → Prop
  | .nil, .nil => True
  | .cons key node rest, .cons key' node' rest' => key.length = key'.length ∧ node.SameCuts node' ∧ rest.SameCuts rest'
  | _, _ => False

end

def AttachmentData.SameCuts (x y : AttachmentData) : Prop :=
  x.blockRoot.SameCuts y.blockRoot ∧ SameCutsAmounts x.fees.toList y.fees.toList ∧
    SameCutsAmounts x.rewards.toList y.rewards.toList

def Diffs.SameCuts (x y : Diffs) : Prop :=
  SameCutsPairs x.diffs.toList y.diffs.toList ∧ x.deleted.toList.map String.length = y.deleted.toList.map String.length

/-! ## Equal streams with equal cuts -/

/-- Heartbeats, also with something after them if the last field has the same length too. -/
theorem HeartBeatREQ.eq_of_update {x y : HeartBeatREQ} {r r' : String} (h : x.update ++ r = y.update ++ r')
    (hc : x.SameCuts y) (ht : x.blockTimestamp.repr.length = y.blockTimestamp.repr.length) : x = y ∧ r = r' := by
  obtain ⟨h1, h2, h3⟩ := hc
  unfold HeartBeatREQ.update at h
  have hlen : (x.prevRootHash1 ++ x.newEpoch.repr ++ x.nodeLeader).length =
      (y.prevRootHash1 ++ y.newEpoch.repr ++ y.nodeLeader).length := by
    simp only [String.length_append]
    omega
  obtain ⟨hfst, hts, hr⟩ := append_append_inj_of_length h hlen ht
  obtain ⟨hp, he, hn⟩ := append_append_inj_of_length hfst h1 h2
  obtain ⟨p, e, n, t⟩ := x
  obtain ⟨p', e', n', t'⟩ := y
  simp only at hp he hn hts
  rw [hp, hn, Int.repr_inj.1 he, Int.repr_inj.1 hts]
  exact ⟨rfl, hr⟩

/-- The last field of a heartbeat takes what is left of the stream. -/
theorem HeartBeatREQ.timestamp_of_update {x y : HeartBeatREQ} (h : x.update = y.update) (hc : x.SameCuts y) :
    x.blockTimestamp.repr.length = y.blockTimestamp.repr.length := by
  obtain ⟨h1, h2, h3⟩ := hc
  have hl := congrArg String.length h
  simp only [HeartBeatREQ.update, String.length_append] at hl
  omega

theorem BlockInfo.eq_of_update {x y : BlockInfo} {r r' : String} (h : x.update ++ r = y.update ++ r') (hc : x.SameCuts y) :
    x = y ∧ r = r' := by
  obtain ⟨h1, h2, h3, h4, hb, ht⟩ := hc
  unfold BlockInfo.update at h
  have hlen : (x.newRootHash1 ++ x.txHash ++ x.diffsHash ++ x.attDataHash).length =
      (y.newRootHash1 ++ y.txHash ++ y.diffsHash ++ y.attDataHash).length := by
    simp only [String.length_append]
    omega
  obtain ⟨hfst, hsnd⟩ := append_append_inj_left h hlen
  obtain ⟨hhb, hr⟩ := HeartBeatREQ.eq_of_update hsnd hb ht
  have hlen' : (x.newRootHash1 ++ x.txHash).length = (y.newRootHash1 ++ y.txHash).length := by
    simp only [String.length_append]
    omega
  obtain ⟨hfst, hd, ha⟩ := append_append_inj_of_length hfst hlen' h3
  obtain ⟨hn, htx⟩ := append_inj_of_length hfst h1
  obtain ⟨n, t, d, a, b⟩ := x
  obtain ⟨n', t', d', a', b'⟩ := y
  simp only at hn htx hd ha hhb
  rw [hn, htx, hd, ha, hhb]
  exact ⟨rfl, hr⟩

/-- A list of strings is determined by its stream and the lengths. -/
theorem eq_of_joinAll {l l' : List String} (h : joinAll l = joinAll l') (hc : l.map String.length = l'.map String.length) :
    l = l' := by
  induction l generalizing l' with
  | nil =>
    cases l' with
    | nil => rfl
    | cons b l' => simp at hc
  | cons a l ih =>
    cases l' with
    | nil => simp at hc
    | cons b l' =>
      obtain ⟨hab, hrest⟩ := List.cons.inj hc
      obtain ⟨rfl, ht⟩ := append_inj_of_length h hab
      rw [ih ht hrest]

theorem eq_of_updateEmits {l l' : List (String × String)} {r r' : String} (h : updateEmits l ++ r = updateEmits l' ++ r')
    (hc : SameCutsPairs l l') : l = l' ∧ r = r' := by
  unfold SameCutsPairs at hc
  induction l generalizing l' with
  | nil =>
    cases l' with
    | nil => exact ⟨rfl, by simpa [updateEmits] using h⟩
    | cons b l' => simp at hc
  | cons a l ih =>
    cases l' with
    | nil => simp at hc
    | cons b l' =>
      obtain ⟨hab, hrest⟩ := List.cons.inj hc
      obtain ⟨h1, h2⟩ := Prod.mk.inj hab
      unfold updateEmits at h
      obtain ⟨hhead, ht⟩ := append_append_inj_left h (by rw [String.length_append, String.length_append, h1, h2])
      obtain ⟨ha, hb⟩ := append_inj_of_length hhead h1
      obtain ⟨hl, hr⟩ := ih ht hrest
      rw [hl, Prod.ext ha hb]
      exact ⟨rfl, hr⟩

theorem eq_of_updateAmounts {l l' : List (String × Int)} {r r' : String}
    (h : updateAmounts l ++ r = updateAmounts l' ++ r') (hc : SameCutsAmounts l l') : l = l' ∧ r = r' := by
  unfold SameCutsAmounts at hc
  induction l generalizing l' with
  | nil =>
    cases l' with
    | nil => exact ⟨rfl, by simpa [updateAmounts] using h⟩
    | cons b l' => simp at hc
  | cons a l ih =>
    cases l' with
    | nil => simp at hc
    | cons b l' =>
      obtain ⟨hab, hrest⟩ := List.cons.inj hc
      obtain ⟨h1, h2⟩ := Prod.mk.inj hab
      unfold updateAmounts at h
      obtain ⟨hhead, ht⟩ := append_append_inj_left h (by rw [String.length_append, String.length_append, h1, h2])
      obtain ⟨ha, hb⟩ := append_inj_of_length hhead h1
      obtain ⟨hl, hr⟩ := ih ht hrest
      rw [hl, Prod.ext ha (Int.repr_inj.1 hb)]
      exact ⟨rfl, hr⟩

-- the induction is on the first tree; the cuts force the second to have its form
mutual

theorem EmitNode.eq_of_update {x y : EmitNode} {r r' : String} (h : x.update ++ r = y.update ++ r') (hc : x.SameCuts y) :
    x = y ∧ r = r' := by
  match x, y with
  | .mk emits children, .mk emits' children' =>
    obtain ⟨h1, h2⟩ := hc
    unfold EmitNode.update at h
    have h' : updateEmits emits ++ (children.update ++ r) = updateEmits emits' ++ (children'.update ++ r') := by
      rw [← String.append_assoc, ← String.append_assoc]
      exact h
    obtain ⟨he, h⟩ := eq_of_updateEmits h' h1
    obtain ⟨hch, hr⟩ := EmitChildren.eq_of_update h h2
    rw [he, hch]
    exact ⟨rfl, hr⟩

theorem EmitChildren.eq_of_update {x y : EmitChildren} {r r' : String} (h : x.update ++ r = y.update ++ r')
    (hc : x.SameCuts y) : x = y ∧ r = r' := by
  match x, y with
  | .nil, .nil => exact ⟨rfl, by simpa [EmitChildren.update] using h⟩
  | .nil, .cons .. => exact hc.elim
  | .cons .., .nil => exact hc.elim
  | .cons key node rest, .cons key' node' rest' =>
    obtain ⟨h1, h2, h3⟩ := hc
    unfold EmitChildren.update at h
    have h' : key ++ (node.update ++ (rest.update ++ r)) = key' ++ (node'.update ++ (rest'.update ++ r')) := by
      rw [← String.append_assoc, ← String.append_assoc, ← String.append_assoc, ← String.append_assoc]
      exact h
    obtain ⟨hk, h⟩ := append_inj_of_length h' h1
    obtain ⟨hn, h⟩ := EmitNode.eq_of_update h h2
    obtain ⟨hrest, hr⟩ := EmitChildren.eq_of_update h h3
    rw [hk, hn, hrest]
    exact ⟨rfl, hr⟩

end

theorem AttachmentData.eq_of_update {x y : AttachmentData} (h : x.update = y.update) (hc : x.SameCuts y) : x = y := by
  obtain ⟨h1, h2, h3⟩ := hc
  unfold AttachmentData.update at h
  rw [String.append_assoc, String.append_assoc] at h
  obtain ⟨hr, h⟩ := EmitNode.eq_of_update h h1
  obtain ⟨hf, h⟩ := eq_of_updateAmounts h h2
  have hw : updateAmounts x.rewards.toList ++ "" = updateAmounts y.rewards.toList ++ "" := by rw [h]
  obtain ⟨hw, -⟩ := eq_of_updateAmounts hw h3
  obtain ⟨root, fees, rewards⟩ := x
  obtain ⟨root', fees', rewards'⟩ := y
  simp only at hr hf hw
  have hfees : fees = fees' := Std.ExtTreeMap.ext_toList (by rw [hf])
  have hrewards : rewards = rewards' := Std.ExtTreeMap.ext_toList (by rw [hw])
  rw [hr, hfees, hrewards]

theorem Diffs.eq_of_update {x y : Diffs} (h : x.update = y.update) (hc : x.SameCuts y) : x = y := by
  obtain ⟨h1, h2⟩ := hc
  obtain ⟨hd, h⟩ := eq_of_updateEmits h h1
  have hdel := eq_of_joinAll h h2
  obtain ⟨diffs, deleted⟩ := x
  obtain ⟨diffs', deleted'⟩ := y
  simp only at hd hdel
  have hdiffs : diffs = diffs' := Std.ExtTreeMap.ext_toList (by rw [hd])
  have hdeleted : deleted = deleted' := Std.ExtTreeSet.ext_toList (by rw [hdel])
  rw [hdiffs, hdeleted]

/-! ## Cuts of one value -/

theorem HeartBeatREQ.SameCuts.refl (x : HeartBeatREQ) : x.SameCuts x := ⟨rfl, rfl, rfl⟩

mutual

theorem EmitNode.SameCuts.refl : (x : EmitNode) → x.SameCuts x
  | .mk _ children => ⟨rfl, EmitChildren.SameCuts.refl children⟩

theorem EmitChildren.SameCuts.refl : (x : EmitChildren) → x.SameCuts x
  | .nil => trivial
  | .cons _ node rest => ⟨rfl, EmitNode.SameCuts.refl node, EmitChildren.SameCuts.refl rest⟩

end

/-- Each kind of signed value is determined by its stream exactly as far as the cuts are: two values with the same stream agree
in the fields it covers if and only if they cut it at the same places. -/
theorem update_determines_iff_sameCuts (hb hb' : HeartBeatREQ) (tx tx' : TX) (ba ba' : BlockAcceptedREQ)
    (at₁ at₂ : AttachmentData) (d d' : Diffs) :
    ((hb.update = hb'.update → hb = hb') ↔ (hb.update = hb'.update → hb.SameCuts hb')) ∧
    ((tx.getHash = tx'.getHash → tx.txBody = tx'.txBody ∧ tx.pkEdBin = tx'.pkEdBin) ↔
      (tx.getHash = tx'.getHash → tx.SameCuts tx')) ∧
    ((ba.update = ba'.update → ba.blockInfo = ba'.blockInfo ∧ ba.nodeValidators = ba'.nodeValidators) ↔
      (ba.update = ba'.update → ba.SameCuts ba')) ∧
    ((at₁.update = at₂.update → at₁ = at₂) ↔ (at₁.update = at₂.update → at₁.SameCuts at₂)) ∧
    ((d.update = d'.update → d = d') ↔ (d.update = d'.update → d.SameCuts d')) := by
  refine ⟨⟨fun hxy h => ?_, fun hc h => ?_⟩, ⟨fun hxy h => ?_, fun hc h => ?_⟩, ⟨fun hxy h => ?_, fun hc h => ?_⟩,
    ⟨fun hxy h => ?_, fun hc h => ?_⟩, ⟨fun hxy h => ?_, fun hc h => ?_⟩⟩
  · rw [hxy h]
    exact .refl hb'
  · have ht := HeartBeatREQ.timestamp_of_update h (hc h)
    have h' : hb.update ++ "" = hb'.update ++ "" := by rw [h]
    exact (HeartBeatREQ.eq_of_update h' (hc h) ht).1
  · exact congrArg String.length (hxy h).1
  · exact append_inj_of_length h (hc h)
  · obtain ⟨h1, h2⟩ := hxy h
    rw [BlockAcceptedREQ.SameCuts, h1, h2]
    exact ⟨⟨rfl, rfl, rfl, rfl, .refl _, rfl⟩, rfl⟩
  · obtain ⟨h1, h2⟩ := hc h
    obtain ⟨hinfo, hv⟩ := BlockInfo.eq_of_update h h1
    exact ⟨hinfo, eq_of_joinAll hv h2⟩
  · rw [hxy h]
    exact ⟨.refl _, rfl, rfl⟩
  · exact AttachmentData.eq_of_update h (hc h)
  · rw [hxy h]
    exact ⟨rfl, rfl⟩
  · exact Diffs.eq_of_update h (hc h)

/-- Bytes can move across the cuts: in each kind of signed value two different ones have the same stream. -/
theorem update_determines_false :
    (∃ x y : HeartBeatREQ, x.update = y.update ∧ x ≠ y) ∧
    (∃ x y : TX, x.getHash = y.getHash ∧ x.txBody ≠ y.txBody) ∧
    (∃ x y : BlockAcceptedREQ, x.update = y.update ∧ x.nodeValidators ≠ y.nodeValidators) ∧
    (∃ x y : AttachmentData, x.update = y.update ∧ x.fees ≠ y.fees) ∧
    (∃ x y : Diffs, x.update = y.update ∧ x.deleted ≠ y.deleted) := by
  refine ⟨⟨{ newEpoch := 1, nodeLeader := "2n" }, { newEpoch := 12, nodeLeader := "n" }, by decide +kernel, by decide +kernel⟩,
    ⟨⟨"[]a", "b", ""⟩, ⟨"[]", "ab", ""⟩, by decide +kernel, by decide +kernel⟩,
    ⟨{ nodeValidators := ["ab"] }, { nodeValidators := ["a", "b"] }, by decide +kernel, by decide +kernel⟩,
    ⟨{ fees := (∅ : StdMap String Int).insert "a" 11 }, { fees := (∅ : StdMap String Int).insert "a1" 1 }, by decide +kernel,
      by decide +kernel⟩,
    ⟨{ diffs := (∅ : StdMap String String).insert "a" "b" }, { deleted := (∅ : StdSet String).insert "ab" }, by decide +kernel,
      by decide +kernel⟩⟩

end Grain
