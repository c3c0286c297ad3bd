import Grain.Lemmas.Rounds

/-!
# The tables of a leader

The names whose stakes a table has after a response was entered: those of before, and the one the response was entered under. In
a map a name is counted once; in a vector it is counted as often as it was appended.
-/

namespace Grain

open Prog

/-! ## Names in a map -/

section Names

variable {ρ : Type}

theorem nodup_names (m : StdMap String ρ) : (m.toList.map (·.1)).Nodup := by
  rw [Std.ExtTreeMap.map_fst_toList_eq_keys]
  exact Std.ExtTreeMap.nodup_keys

theorem mem_names {m : StdMap String ρ} {n : String} : n ∈ m.toList.map (·.1) ↔ n ∈ m := by
  rw [Std.ExtTreeMap.map_fst_toList_eq_keys, Std.ExtTreeMap.mem_keys]

/-- In a map whose entries name their own keys these names are the keys. -/
theorem map_nodeSigner {m : StdMap String ConfirmLeaderRSP} (h : ∀ (n : String) (z : ConfirmLeaderRSP), m[n]? = some z → z.nodeSigner = n) :
    m.toList.map (·.2.nodeSigner) = m.toList.map (·.1) := by
  refine List.map_congr_left fun x hx => ?_
  exact h x.1 x.2 (Std.ExtTreeMap.mem_toList_iff_getElem?_eq_some.1 hx)

/-- A set filled from a sorted list lists it again. -/
theorem toList_foldl_insert {l : List String} (h : l.Pairwise fun a b => compare a b = .lt) :
    (l.foldl (fun v z => v.insert z) (∅ : StdSet String)).toList = l := by
  have hmem : ∀ (l : List String) (v : StdSet String) (a : String),
      a ∈ l.foldl (fun v z => v.insert z) v ↔ a ∈ l ∨ a ∈ v := by
    intro l
    induction l with
    | nil => simp
    | cons z l ih =>
      intro v a
      rw [List.foldl_cons, ih, Std.ExtTreeSet.mem_insert, Std.LawfulEqCmp.compare_eq_iff_eq, List.mem_cons]
      constructor
      · rintro (h | rfl | h)
        · exact .inl (.inr h)
        · exact .inl (.inl rfl)
        · exact .inr h
      · rintro ((rfl | h) | h)
        · exact .inr (.inl rfl)
        · exact .inl h
        · exact .inr (.inr h)
  have : Std.Irrefl fun a b : String => compare a b = .lt := ⟨fun a h => by simp at h⟩
  have : Std.Antisymm fun a b : String => compare a b = .lt :=
    ⟨fun a b h h' => absurd (Std.OrientedCmp.gt_of_lt h) (by rw [h']; exact nofun)⟩
  refine List.Pairwise.eq_of_mem_iff Std.ExtTreeSet.ordered_toList h fun a => ?_
  rw [Std.ExtTreeSet.mem_toList, hmem]
  simp

theorem ordered_names (m : StdMap String ρ) : (m.toList.map (·.1)).Pairwise fun a b => compare a b = .lt := by
  rw [Std.ExtTreeMap.map_fst_toList_eq_keys]
  exact Std.ExtTreeMap.ordered_keys

/-- The entry of a table of maps after an insertion in one of them. -/
theorem getD_insert_insert {τ : Type} (m : StdMap String (StdMap String τ)) (h k n : String) (z : τ) :
    (m.insert h ((m[h]?.getD ∅).insert n z))[k]?.getD ∅ = if h = k then (m[k]?.getD ∅).insert n z else m[k]?.getD ∅ := by
  rw [StdMap.getElem?_insert]
  split
  next hk => rw [← hk]; rfl
  next => rfl

theorem getD_insert {τ : Type} (m : StdMap String τ) (h k : String) (x d : τ) :
    (m.insert h x)[k]?.getD d = if h = k then x else m[k]?.getD d := by
  rw [StdMap.getElem?_insert]
  split <;> rfl

end Names

/-! ## Responses and tables -/

/-- The table is one for the response. -/
def Response.inTable : Response → Table → Bool
  | .heartBeatRSP _, .heartBeatRSPm => true
  | .confirmLeaderRSP _, .confirmLeaderRSPm => true
  | .confirmLeaderRSP _, .confirmLeaderRSPmCopy => true
  | .getTransactionRSP _, .getTransactionRSPm => true
  | .validateBlockRSP _, .validateBlockRSPm => true
  | .blockDiffValidateRSP _, .blockDiffValidateRSPm => true
  | _, _ => false

/-- The hash a response is about. -/
def Response.about : Response → String
  | .heartBeatRSP r => r.payloadHeartBeat.getHash
  | .confirmLeaderRSP r => r.hb.getHash
  | .getTransactionRSP r => r.hbHash
  | .validateBlockRSP r => r.blockInfo.getHash
  | .blockDiffValidateRSP r => r.blockInfoHash

/-- The name a response from `src` is entered under. -/
def Response.author (src : String) : Response → String
  | .heartBeatRSP r => r.nodeSigner
  | .confirmLeaderRSP r => r.nodeSigner
  | .getTransactionRSP _ => src
  | .validateBlockRSP r => r.nodeValidator
  | .blockDiffValidateRSP r => r.nodeValidator

/-- Enter a response from `src` in its tables. -/
def BlockLeader.add (bt : BlockLeader) (src : String) : Response → BlockLeader
  | .heartBeatRSP r => bt.addHeartBeatRSP r
  | .confirmLeaderRSP r => bt.addConfirmLeaderRSP r
  | .getTransactionRSP r => bt.addGetTransactionRSP src r
  | .validateBlockRSP r => bt.addValidateBlockRSP r
  | .blockDiffValidateRSP r => bt.addBlockDiffValidateRSP r

/-- The vectors have no entry of the response's author for its hash yet. -/
def BlockLeader.Fresh (bt : BlockLeader) : Response → Prop
  | .validateBlockRSP r => r.nodeValidator ∉ bt.counted r.blockInfo.getHash .validateBlockRSPm
  | .blockDiffValidateRSP r => r.nodeValidator ∉ bt.counted r.blockInfoHash .blockDiffValidateRSPm
  | _ => True

/-- The entries of the map name the keys they stand under. -/
def OwnKeys (m : StdMap String (StdMap String ConfirmLeaderRSP)) : Prop :=
  ∀ (h n : String) (z : ConfirmLeaderRSP), (m[h]?.getD ∅)[n]? = some z → z.nodeSigner = n

/-- It is so in the two maps of confirmations. -/
structure Keyed (bt : BlockLeader) : Prop where
  confirm : OwnKeys bt.confirmLeaderRSPm
  copy : OwnKeys bt.confirmLeaderRSPmCopy

/-- Every name is counted once, and only for a response of the log. -/
structure Counts (L : List (String × Response)) (bt : BlockLeader) : Prop where
  once : ∀ h tbl, (bt.counted h tbl).Nodup
  own : ∀ h tbl n, n ∈ bt.counted h tbl → ∃ r, (n, r) ∈ L ∧ r.inTable tbl = true ∧ r.about = h

section Add

variable {bt : BlockLeader} {src : String} {L : List (String × Response)}

theorem counted_confirm (hk : Keyed bt) (h : String) :
    bt.counted h .confirmLeaderRSPm = (bt.confirmLeaderRSPm[h]?.getD ∅).toList.map (·.1) := map_nodeSigner (hk.confirm h)

theorem counted_copy (hk : Keyed bt) (h : String) :
    bt.counted h .confirmLeaderRSPmCopy = (bt.confirmLeaderRSPmCopy[h]?.getD ∅).toList.map (·.1) := map_nodeSigner (hk.copy h)

/-- Entering a response keeps the maps of confirmations keyed. -/
theorem Keyed.add (hk : Keyed bt) (r : Response) : Keyed (bt.add src r) := by
  cases r with
  | confirmLeaderRSP r =>
    have hmap : ∀ m, OwnKeys m → OwnKeys (m.insert r.hb.getHash ((m[r.hb.getHash]?.getD ∅).insert r.nodeSigner r)) := by
      intro m hm h n z hz
      rw [getD_insert_insert] at hz
      split at hz
      · rw [StdMap.getElem?_insert] at hz
        split at hz
        · next hn => rw [← Option.some.inj hz, hn]
        · exact hm h n z hz
      · exact hm h n z hz
    exact ⟨hmap _ hk.confirm, hmap _ hk.copy⟩
  | heartBeatRSP r => exact ⟨hk.confirm, hk.copy⟩
  | getTransactionRSP r => exact ⟨hk.confirm, hk.copy⟩
  | validateBlockRSP r => exact ⟨hk.confirm, hk.copy⟩
  | blockDiffValidateRSP r => exact ⟨hk.confirm, hk.copy⟩

/-- The names in a table of maps after a response was entered. -/
theorem mem_names_insert {τ : Type} {m : StdMap String (StdMap String τ)} {h k n a : String} {z : τ}
    (ha : a ∈ ((m.insert h ((m[h]?.getD ∅).insert n z))[k]?.getD ∅).toList.map (·.1)) :
    a ∈ (m[k]?.getD ∅).toList.map (·.1) ∨ (a = n ∧ h = k) := by
  rw [mem_names, getD_insert_insert] at ha
  rw [mem_names]
  split at ha
  next hk =>
    rcases (StdMap.mem_insert _ _ _ _).1 ha with rfl | ha
    · exact .inr ⟨rfl, hk⟩
    · exact .inl ha
  next => exact .inl ha

/-- The names in a table of vectors after a response was appended. -/
theorem map_append_insert {τ : Type} (m : StdMap String (List τ)) (f : τ → String) (h k : String) (x : τ) :
    ((m.insert h (m[h]?.getD [] ++ [x]))[k]?.getD []).map f =
      if h = k then (m[k]?.getD []).map f ++ [f x] else (m[k]?.getD []).map f := by
  rw [getD_insert]
  split
  next hk => rw [← hk, List.map_append]; rfl
  next => rfl

/-- A name that is counted after a response was entered was counted before, or is the author's. -/
theorem mem_counted_add (hk : Keyed bt) {r : Response} {h n : String} {tbl : Table} (hn : n ∈ (bt.add src r).counted h tbl) :
    n ∈ bt.counted h tbl ∨ (n = r.author src ∧ r.inTable tbl = true ∧ r.about = h) := by
  have hk' : Keyed (bt.add src r) := hk.add r
  cases r with
  | heartBeatRSP r =>
    cases tbl with
    | heartBeatRSPm => exact (mem_names_insert hn).imp_right fun ⟨ha, hh⟩ => ⟨ha, rfl, hh⟩
    | _ => exact .inl hn
  | confirmLeaderRSP r =>
    cases tbl with
    | confirmLeaderRSPm =>
      rw [counted_confirm hk'] at hn
      rw [counted_confirm hk]
      exact (mem_names_insert hn).imp_right fun ⟨ha, hh⟩ => ⟨ha, rfl, hh⟩
    | confirmLeaderRSPmCopy =>
      rw [counted_copy hk'] at hn
      rw [counted_copy hk]
      exact (mem_names_insert hn).imp_right fun ⟨ha, hh⟩ => ⟨ha, rfl, hh⟩
    | _ => exact .inl hn
  | getTransactionRSP r =>
    cases tbl with
    | getTransactionRSPm => exact (mem_names_insert hn).imp_right fun ⟨ha, hh⟩ => ⟨ha, rfl, hh⟩
    | _ => exact .inl hn
  | validateBlockRSP r =>
    cases tbl with
    | validateBlockRSPm =>
      change n ∈ List.map _ _ at hn
      rw [BlockLeader.add, BlockLeader.addValidateBlockRSP, map_append_insert] at hn
      split at hn
      next hh =>
        rcases List.mem_append.1 hn with hn | hn
        · exact .inl hn
        · exact .inr ⟨List.mem_singleton.1 hn, rfl, hh⟩
      next => exact .inl hn
    | _ => exact .inl hn
  | blockDiffValidateRSP r =>
    cases tbl with
    | blockDiffValidateRSPm =>
      change n ∈ List.map _ _ at hn
      rw [BlockLeader.add, BlockLeader.addBlockDiffValidateRSP, map_append_insert] at hn
      split at hn
      next hh =>
        rcases List.mem_append.1 hn with hn | hn
        · exact .inl hn
        · exact .inr ⟨List.mem_singleton.1 hn, rfl, hh⟩
      next => exact .inl hn
    | _ => exact .inl hn

/-- A response whose author has no entry yet keeps the names different. -/
theorem nodup_counted_add (hk : Keyed bt) (hb : ∀ h tbl, (bt.counted h tbl).Nodup) {r : Response} (hr : bt.Fresh r) (h : String)
    (tbl : Table) : ((bt.add src r).counted h tbl).Nodup := by
  have hk' : Keyed (bt.add src r) := hk.add r
  cases tbl with
  | heartBeatRSPm => exact nodup_names _
  | confirmLeaderRSPm =>
    rw [counted_confirm hk']
    exact nodup_names _
  | confirmLeaderRSPmCopy =>
    rw [counted_copy hk']
    exact nodup_names _
  | getTransactionRSPm => exact nodup_names _
  | validateBlockRSPm =>
    cases r with
    | validateBlockRSP r =>
      change (List.map _ _).Nodup
      rw [BlockLeader.add, BlockLeader.addValidateBlockRSP, map_append_insert]
      split
      next hh =>
        obtain rfl : r.blockInfo.getHash = h := hh
        exact List.nodup_append.2 ⟨hb _ .validateBlockRSPm, List.nodup_singleton _, by
          intro a ha b hb' hab
          rw [List.mem_singleton.1 hb'] at hab
          exact hr (hab ▸ ha)⟩
      next => exact hb h .validateBlockRSPm
    | _ => exact hb h .validateBlockRSPm
  | blockDiffValidateRSPm =>
    cases r with
    | blockDiffValidateRSP r =>
      change (List.map _ _).Nodup
      rw [BlockLeader.add, BlockLeader.addBlockDiffValidateRSP, map_append_insert]
      split
      next hh =>
        obtain rfl : r.blockInfoHash = h := hh
        exact List.nodup_append.2 ⟨hb _ .blockDiffValidateRSPm, List.nodup_singleton _, by
          intro a ha b hb' hab
          rw [List.mem_singleton.1 hb'] at hab
          exact hr (hab ▸ ha)⟩
      next => exact hb h .blockDiffValidateRSPm
    | _ => exact hb h .blockDiffValidateRSPm

/-- A response that names its sender, and is the first of it where that matters, is counted as it should be. -/
theorem Counts.add (hb : Counts L bt) (hk : Keyed bt) {r : Response} (hsrc : r.author src = src) (hr : bt.Fresh r) :
    Counts (L ++ [(src, r)]) (bt.add src r) := by
  refine ⟨nodup_counted_add hk hb.once hr, fun h tbl n hn => ?_⟩
  rcases mem_counted_add hk hn with hn | ⟨rfl, htbl, hh⟩
  · obtain ⟨x, hx, hprop⟩ := hb.own h tbl n hn
    exact ⟨x, List.mem_append_left _ hx, hprop⟩
  · rw [hsrc]
    exact ⟨r, List.mem_append_right _ List.mem_cons_self, htbl, hh⟩

end Add

/-! ## Emptied entries -/

/-- The tables of `bt'` are those of `bt` but for entries that were emptied. -/
theorem counts_shrink {L : List (String × Response)} {bt bt' : BlockLeader} (h : Counts L bt ∧ Keyed bt)
    (hcounted : ∀ h tbl, bt'.counted h tbl = bt.counted h tbl ∨ bt'.counted h tbl = []) (hk : Keyed bt') :
    Counts L bt' ∧ Keyed bt' := by
  obtain ⟨hb, -⟩ := h
  refine ⟨⟨fun h tbl => ?_, fun h tbl n hn => ?_⟩, hk⟩
  · rcases hcounted h tbl with heq | heq <;> rw [heq]
    · exact hb.once h tbl
    · exact List.nodup_nil
  · rcases hcounted h tbl with heq | heq <;> rw [heq] at hn
    · exact hb.own h tbl n hn
    · nomatch hn

theorem counts_empty (L : List (String × Response)) : Counts L {} ∧ Keyed {} := by
  have hcounted : ∀ h tbl, ({} : BlockLeader).counted h tbl = [] := by
    intro h tbl
    cases tbl <;> simp [BlockLeader.counted]
  refine ⟨⟨fun h tbl => ?_, fun h tbl n hn => ?_⟩, ⟨fun h n z hz => ?_, fun h n z hz => ?_⟩⟩
  · rw [hcounted]
    exact List.nodup_nil
  · rw [hcounted] at hn
    nomatch hn
  · simp at hz
  · simp at hz

theorem counts_closed (L : List (String × Response)) : Closed fun bt => Counts L bt ∧ Keyed bt where
  empty := counts_empty L
  cert bt x h := counts_shrink h (fun h tbl => .inl (by cases tbl <;> rfl)) ⟨h.2.confirm, h.2.copy⟩
  infoZ bt b h := by
    unfold BlockLeader.setBlockInfoZ
    split
    · exact h
    · exact counts_shrink h (fun h tbl => .inl (by cases tbl <;> rfl)) ⟨h.2.confirm, h.2.copy⟩
  clearHeartBeat bt k h := by
    refine counts_shrink h (fun h tbl => ?_) ⟨h.2.confirm, h.2.copy⟩
    cases tbl with
    | heartBeatRSPm =>
      by_cases hk : k = h
      · exact .inr (by simp [BlockLeader.counted, hk])
      · exact .inl (by simp [BlockLeader.counted, getD_insert, hk])
    | _ => exact .inl rfl
  clearConfirm bt h := by
    refine counts_shrink h (fun h tbl => ?_) ⟨fun h n z hz => ?_, h.2.copy⟩
    · cases tbl with
      | confirmLeaderRSPm => exact .inr (by simp [BlockLeader.counted])
      | _ => exact .inl rfl
    · simp at hz
  clearGetTransaction bt k h := by
    refine counts_shrink h (fun h tbl => ?_) ⟨h.2.confirm, h.2.copy⟩
    cases tbl with
    | getTransactionRSPm =>
      by_cases hk : k = h
      · exact .inr (by simp [BlockLeader.counted, hk])
      · exact .inl (by simp [BlockLeader.counted, getD_insert, hk])
    | _ => exact .inl rfl
  clearValidate bt k h := by
    refine counts_shrink h (fun h tbl => ?_) ⟨h.2.confirm, h.2.copy⟩
    cases tbl with
    | validateBlockRSPm =>
      by_cases hk : k = h
      · exact .inr (by simp [BlockLeader.counted, hk])
      · exact .inl (by simp [BlockLeader.counted, getD_insert, hk])
    | _ => exact .inl rfl
  clearDiff bt k h := by
    refine counts_shrink h (fun h tbl => ?_) ⟨h.2.confirm, h.2.copy⟩
    cases tbl with
    | blockDiffValidateRSPm =>
      by_cases hk : k = h
      · exact .inr (by simp [BlockLeader.counted, hk])
      · exact .inl (by simp [BlockLeader.counted, getD_insert, hk])
    | _ => exact .inl rfl

/-! ## What the handlers enter -/

/-- The request that is made of a response, for a certificate over others that are about the same block. -/
def ValidateBlockRSP.request (v : ValidateBlockRSP) (rs : List ValidateBlockRSP) : BlockDiffValidateREQ where
  blockAcceptedREQ := acceptedOf v.blockInfo rs
  txHashes := v.txHashes
  diffs := v.diffs
  attData := v.attData

section Enter

variable {J J' : BlockLeader → Prop} {Γ : NodeCtx} {s : NodeSt} {src : String}

/-- A change of the tables of the current root. -/
theorem carries_onBt {f : BlockLeader → BlockLeader} (h : ∀ bt, J bt → J (f bt)) :
    Moves nodeExec (Carries J) (Node.modify fun s => s.onBt f) s := fun hs => hs.onBt (h _)

theorem carries_send (m : Sent) : Moves nodeExec (Carries J) (Node.send m) s := fun hs => hs.of_eq rfl

/-- A handler that changes the tables of the current root after its checks. -/
theorem tables_enter {check : Node Bool} {rest : Node Unit} {f : BlockLeader → BlockLeader}
    (hcheck : Moves nodeExec SameRound check s) (hweak : ∀ bt, J bt → J' bt)
    (hf : (runNode check s).1 = .ok true → J s.bt → J' (f s.bt))
    (hrest : (runNode check s).1 = .ok true → ∀ u, Moves nodeExec (Carries J') rest u)
    (hs : s.Tables J) :
    (runNode (check >>= fun ok => if ok then Node.modify (fun s => s.onBt f) >>= fun _ => rest else pure ()) s).2.Tables J' := by
  have hcheck' : SameRound s (runNode check s).2 := hcheck
  rw [runNode_bind]
  rcases hr : runNode check s with ⟨e | ok, u⟩ <;> rw [hr] at hcheck' hf hrest
  · exact fun root => hweak _ (hs.of_eq hcheck'.lBlocks root)
  have hu : u.Tables J := hs.of_eq hcheck'.lBlocks
  cases ok with
  | false => exact fun root => hweak _ (hu root)
  | true =>
    have hbt : u.bt = s.bt := by
      unfold NodeSt.bt NodeSt.prevRootHashZ NodeSt.lBlock
      rw [hcheck'.prevBlock, hcheck'.lBlocks]
    have hentered : (u.onBt f).Tables J' := by
      refine NodeSt.Tables.setLBlock (fun root => hweak _ (hu root)) _ ?_
      rw [hbt]
      exact hf rfl (hs _)
    exact hrest rfl _ hentered

theorem carries_doRequestForTransactions : Moves nodeExec (Carries J) doRequestForTransactions s := by
  refine moves_get_bind ?_
  cases s.bt.leaderCert2 with
  | none => exact .stop _
  | some hb => exact carries_send _

/-- Where a response was entered a property of the tables still holds if it holds with the response, and with the request that
is made of an answer to `ValidateBlockREQ`. -/
theorem tables_response (hJ : Closed J') (hweak : ∀ bt, J bt → J' bt) (t : Clock) (r : Response)
    (hadd : (runNode (r.admits Γ t) s).1 = .ok true → J s.bt → J' (s.bt.add src r))
    (hreq : (runNode (r.admits Γ t) s).1 = .ok true → ∀ v rs bt, r = .validateBlockRSP v → J' bt →
      J' { bt with blockDiffValidateREQ := some (v.request rs) })
    (hs : s.Tables J) : (runNode (r.handler Γ t src) s).2.Tables J' := by
  have hcheck : Moves nodeExec SameRound (r.admits Γ t) s := moves_admit t r
  cases r with
  | heartBeatRSP r =>
    refine tables_enter hcheck hweak hadd (fun hok u => ?_) hs
    refine Moves.bind (moves_getMetaFull _) fun mf s _ => moves_get_bind (Moves.bind (moves_tree _) fun q s _ => ?_)
    refine Moves.ite (fun _ => Moves.bind (carries_send _) fun _ s _ => ?_) fun _ => .pure _
    exact carries_onBt fun bt => hJ.clearHeartBeat bt _
  | confirmLeaderRSP r =>
    refine tables_enter hcheck hweak hadd (fun hok u => ?_) hs
    refine Moves.bind (moves_getMetaFull _) fun mf s _ => moves_get_bind (Moves.bind (moves_tree _) fun q s _ => ?_)
    refine Moves.ite (fun _ => Moves.bind carries_doRequestForTransactions fun _ s _ => ?_) fun _ => .pure _
    exact carries_onBt hJ.clearConfirm
  | getTransactionRSP r =>
    refine tables_enter hcheck hweak hadd (fun hok u => moves_get_bind ?_) hs
    refine Moves.bind (moves_tree _) fun hb s _ => Moves.bind (moves_getMetaFull _) fun mf s _ => moves_get_bind ?_
    exact Moves.bind (moves_tree _) fun q s _ => Moves.ite (fun _ => carries_send _) fun _ => .pure _
  | validateBlockRSP r =>
    refine tables_enter hcheck hweak hadd (fun hok u => ?_) hs
    refine Moves.bind (moves_getMetaFull _) fun mf s _ => moves_get_bind (Moves.bind (moves_tree _) fun q s _ => ?_)
    refine Moves.ite (fun _ => Moves.bind (carries_onBt fun bt => hJ.infoZ bt _) fun _ s _ => moves_get_bind ?_) fun _ => .pure _
    refine Moves.bind (moves_tree _) fun ns s _ => Moves.ite (fun _ => ?_) fun _ => .pure _
    refine Moves.bind (carries_send _) fun _ s _ => ?_
    exact carries_onBt fun bt => hreq hok r _ bt rfl
  | blockDiffValidateRSP r =>
    refine tables_enter hcheck hweak hadd (fun hok u => moves_get_bind (Moves.bind (moves_tree _) fun q s _ => ?_)) hs
    refine Moves.ite (fun _ => moves_get_bind (Moves.bind (moves_tree _) fun bdv s _ => ?_)) fun _ => .pure _
    refine Moves.bind (moves_tree _) fun ns s _ => Moves.bind (moves_raiseIf _ _) fun _ s _ => ?_
    exact carries_send _

theorem carries_doStartBlock : Moves nodeExec (Carries J) (doStartBlock Γ) s := by
  refine moves_get_bind (Moves.ite (fun _ => .pure _) fun _ => Moves.ite (fun _ => .pure _) fun _ => ?_)
  cases s.bt.leaderCert2 with
  | none => exact .pure _
  | some hb =>
    refine Moves.bind (moves_getMetaFull _) fun mf s _ => moves_get_bind (Moves.bind (moves_tree _) fun lc s _ => ?_)
    have hpool : Moves nodeExec (Carries J) (collectTransactions Γ) s := by
      refine moves_get_bind (Moves.bind (.ofExcept _) fun o u _ => ?_)
      exact moves_other fun _ => ⟨rfl, rfl, rfl, rfl, rfl⟩
    exact Moves.bind hpool fun _ s _ => moves_get_bind (carries_send _)

/-- An alarm empties an entry of a table, at most. -/
theorem carries_onAlarm (hJ : Closed J) (a : Alarm) : Moves nodeExec (Carries J) (onAlarm Γ a) s := by
  cases a with
  | getTransactionRSP hbHash =>
    refine moves_get_bind (Moves.ite (fun _ => .pure _) fun _ => Moves.bind (moves_tree _) fun q s _ => ?_)
    refine Moves.ite (fun _ => Moves.bind carries_doStartBlock fun _ s _ => ?_) fun _ => .pure _
    exact carries_onBt fun bt => hJ.clearGetTransaction bt _
  | blockDBStore r =>
    refine moves_get_bind (Moves.bind (moves_tree _) fun q s _ => Moves.ite (fun _ => ?_) fun _ => .pure _)
    refine Moves.bind (moves_getMetaFull _) fun mf s _ => Moves.bind (carries_send _) fun _ s _ => ?_
    exact carries_onBt fun bt => hJ.clearDiff bt _
  | blockDiffValidateREQ r =>
    refine Moves.bind (moves_getMetaFull _) fun mf s _ => moves_get_bind (Moves.bind (moves_tree _) fun q s _ => ?_)
    refine Moves.ite (fun _ => Moves.bind (carries_send _) fun _ s _ => ?_) fun _ => .pure _
    exact carries_onBt fun bt => hJ.clearValidate bt _

end Enter

/-! ## What the handlers send before there is a block -/

section Early

variable {s : NodeSt} (Γ : NodeCtx) (t : Clock)

/-- No message about a block was sent. -/
abbrev Early : NodeSt → NodeSt → Prop := Sends fun m => m.early = true

theorem early_send {m : Sent} (h : m.early = true) : Moves nodeExec Early (Node.send m) s := Sends.log h

theorem sends_onBt {P : Sent → Prop} {f : BlockLeader → BlockLeader} :
    Moves nodeExec (Sends P) (Node.modify fun s => s.onBt f) s := .none rfl

theorem early_heartBeatRSP (r : HeartBeatRSP) : Moves nodeExec Early (heartBeatRSP Γ t r) s := by
  refine Moves.bind (moves_admitHeartBeatRSP t r) fun ok s _ => Moves.ite (fun _ => ?_) fun _ => .pure _
  refine Moves.bind sends_onBt fun _ s _ => Moves.bind (moves_getMetaFull _) fun mf s _ => moves_get_bind ?_
  refine Moves.bind (moves_tree _) fun q s _ => Moves.ite (fun _ => ?_) fun _ => .pure _
  exact Moves.bind (early_send rfl) fun _ s _ => sends_onBt

theorem early_doRequestForTransactions : Moves nodeExec Early doRequestForTransactions s := by
  refine moves_get_bind ?_
  cases s.bt.leaderCert2 with
  | none => exact .stop _
  | some hb => exact early_send rfl

theorem early_confirmLeaderRSP (r : ConfirmLeaderRSP) : Moves nodeExec Early (confirmLeaderRSP Γ t r) s := by
  refine Moves.bind (moves_admitConfirmLeaderRSP t r) fun ok s _ => Moves.ite (fun _ => ?_) fun _ => .pure _
  refine Moves.bind sends_onBt fun _ s _ => Moves.bind (moves_getMetaFull _) fun mf s _ => moves_get_bind ?_
  refine Moves.bind (moves_tree _) fun q s _ => Moves.ite (fun _ => ?_) fun _ => .pure _
  exact Moves.bind early_doRequestForTransactions fun _ s _ => sends_onBt

theorem early_getTransactionRSP (src : String) (r : GetTransactionRSP) :
    Moves nodeExec Early (getTransactionRSP Γ src r) s := by
  refine Moves.bind (moves_admitGetTransactionRSP r) fun ok s _ => Moves.ite (fun _ => ?_) fun _ => .pure _
  refine Moves.bind sends_onBt fun _ s _ => moves_get_bind ?_
  refine Moves.bind (moves_tree _) fun hb s _ => Moves.bind (moves_getMetaFull _) fun mf s _ => moves_get_bind ?_
  exact Moves.bind (moves_tree _) fun q s _ => Moves.ite (fun _ => early_send rfl) fun _ => .pure _

end Early

end Grain
