import Grain.Lemmas.Handlers

/-!
# What handlers do to the tables

Only the responses of other nodes add to the tables of a leader. The other handlers drop all of them, enter the heartbeat of a
round or change nothing of them, and the messages they send carry no certificate of a leader.
-/

namespace Grain

open Prog

/-- The message carries no certificate that a leader has built. -/
def Sent.plain : Sent → Bool
  | .validateBlockREQ _ => false
  | .blockDiffValidateREQ _ => false
  | .blockDBStore _ => false
  | .resetAlarm _ => false
  | _ => true

/-- The message is about no block: it carries no certificate, or is the alarm that starts one. -/
def Sent.early : Sent → Bool
  | .resetAlarm (.getTransactionRSP _) => true
  | m => m.plain

/-- Every table of the state has the property. -/
def NodeSt.Tables (J : BlockLeader → Prop) (s : NodeSt) : Prop := ∀ root, J (s.lBlock root)

/-- The property holds of empty tables and stays when an entry is emptied; the heartbeat of the round and the first block of a
quorum do not matter to it. -/
structure Closed (J : BlockLeader → Prop) : Prop where
  empty : J {}
  cert : ∀ bt x, J bt → J { bt with leaderCert2 := x }
  infoZ : ∀ bt b, J bt → J (bt.setBlockInfoZ b)
  clearHeartBeat : ∀ bt h, J bt → J { bt with heartBeatRSPm := bt.heartBeatRSPm.insert h ∅ }
  clearConfirm : ∀ bt, J bt → J { bt with confirmLeaderRSPm := ∅ }
  clearGetTransaction : ∀ bt h, J bt → J { bt with getTransactionRSPm := bt.getTransactionRSPm.insert h ∅ }
  clearValidate : ∀ bt h, J bt → J { bt with validateBlockRSPm := bt.validateBlockRSPm.insert h [] }
  clearDiff : ∀ bt h, J bt → J { bt with blockDiffValidateRSPm := bt.blockDiffValidateRSPm.insert h [] }

/-- The messages sent from `s` to `t` have the property. -/
def Sends (P : Sent → Prop) (s t : NodeSt) : Prop := ∃ new, t.sent = s.sent ++ new ∧ ∀ m ∈ new, P m

section Sends

variable {P Q : Sent → Prop} {s t u : NodeSt}

theorem Sends.none (h : t.sent = s.sent) : Sends P s t := by
  refine ⟨[], by rw [h, List.append_nil], ?_⟩
  intro m hm
  nomatch hm

theorem Sends.trans (h : Sends P s t) (h' : Sends P t u) : Sends P s u := by
  obtain ⟨new, hnew, hP⟩ := h
  obtain ⟨new', hnew', hP'⟩ := h'
  refine ⟨new ++ new', by rw [hnew', hnew, List.append_assoc], ?_⟩
  intro m hm
  rcases List.mem_append.1 hm with hm | hm
  · exact hP m hm
  · exact hP' m hm

theorem Sends.mono (h : Sends P s t) (hPQ : ∀ m, P m → Q m) : Sends Q s t := by
  obtain ⟨new, hnew, hP⟩ := h
  exact ⟨new, hnew, fun m hm => hPQ m (hP m hm)⟩

theorem Sends.log {m : Sent} (h : P m) : Sends P s (s.log m) := by
  refine ⟨[m], rfl, ?_⟩
  intro x hx
  rw [List.mem_singleton.1 hx]
  exact h

end Sends

/-- From `s` to `t` nothing was added to the tables, and the messages that were sent carry no certificate. -/
structure Rounds (s t : NodeSt) : Prop where
  tables : ∀ J, Closed J → s.Tables J → t.Tables J
  sent : Sends (fun m => m.plain = true) s t

namespace NodeSt

variable {J : BlockLeader → Prop} {s t : NodeSt}

theorem lBlock_setLBlock (s : NodeSt) (root r : String) (b : BlockLeader) :
    (s.setLBlock root b).lBlock r = if root = r then b else s.lBlock r := by
  unfold lBlock setLBlock
  rw [StdMap.getElem?_insert]
  split <;> rfl

@[simp] theorem bt_onBt (s : NodeSt) (f : BlockLeader → BlockLeader) : (s.onBt f).bt = f s.bt := by
  unfold onBt
  change (s.setLBlock s.prevRootHashZ (f s.bt)).lBlock s.prevRootHashZ = _
  rw [lBlock_setLBlock, if_pos rfl]

theorem Tables.of_eq (h : s.Tables J) (heq : t.lBlocks = s.lBlocks) : t.Tables J := by
  intro root
  have hroot := h root
  unfold lBlock at hroot ⊢
  rwa [heq]

theorem Tables.setLBlock (h : s.Tables J) (root : String) {b : BlockLeader} (hb : J b) : (s.setLBlock root b).Tables J := by
  intro r
  rw [lBlock_setLBlock]
  split
  · exact hb
  · exact h r

/-- A change of the tables of the current root. -/
theorem Tables.onBt (h : s.Tables J) {f : BlockLeader → BlockLeader} (hf : J s.bt → J (f s.bt)) : (s.onBt f).Tables J :=
  h.setLBlock _ (hf (h s.prevRootHashZ))

theorem Tables.drop (hJ : J {}) (heq : t.lBlocks = ∅) : t.Tables J := by
  intro root
  unfold lBlock
  rw [heq]
  exact hJ

end NodeSt

/-- The property of the tables passes from `s` to `t`. -/
def Carries (J : BlockLeader → Prop) (s t : NodeSt) : Prop := s.Tables J → t.Tables J

instance (J : BlockLeader → Prop) : IsRound (Carries J) where
  refl _ h := h
  trans _ _ _ h h' hs := h' (h hs)
  same _ _ h hs := hs.of_eq h.lBlocks

/-- Every message sent from `s` to `t` has the property. -/
instance (P : Sent → Prop) : IsRound (Sends P) where
  refl _ := .none rfl
  trans _ _ _ h h' := h.trans h'
  same _ _ h := .none h.sent

namespace Rounds

variable {s t : NodeSt}

/-- A change of the other fields. -/
theorem of_eq (hblocks : t.lBlocks = s.lBlocks) (hsent : t.sent = s.sent) : Rounds s t :=
  ⟨fun _ _ hs => hs.of_eq hblocks, .none hsent⟩

instance : IsRound Rounds where
  refl _ := ⟨fun _ _ hs => hs, .none rfl⟩
  trans _ _ _ h h' := ⟨fun J hJ hs => h'.tables J hJ (h.tables J hJ hs), h.sent.trans h'.sent⟩
  same _ _ h := of_eq h.lBlocks h.sent

theorem log {m : Sent} (h : m.plain = true) (s : NodeSt) : Rounds s (s.log m) :=
  ⟨fun _ _ hs => hs.of_eq rfl, .log h⟩

theorem startRound (s : NodeSt) (hb : HeartBeatREQ) (now : Int) : Rounds s (s.startRound hb now) := by
  refine ⟨fun J hJ hs => ?_, .none rfl⟩
  unfold NodeSt.startRound
  refine NodeSt.Tables.of_eq ?_ rfl
  have hdrop : ({ s with lBlocks := if s.stale hb then ∅ else s.lBlocks } : NodeSt).Tables J := by
    by_cases hstale : s.stale hb = true
    · exact NodeSt.Tables.drop hJ.empty (if_pos hstale)
    · exact hs.of_eq (if_neg hstale)
  exact hdrop.setLBlock _ (hJ.cert _ _ (hdrop _))

theorem adopt (s : NodeSt) (clear cert : Bool) (h : HeartBeatREQ) : Rounds s (s.adopt clear cert h) := by
  refine ⟨fun J hJ hs => ?_, .none (by cases cert <;> rfl)⟩
  have hdrop : ({ s with lBlocks := if clear then ∅ else s.lBlocks }.record h : NodeSt).Tables J := by
    by_cases hc : clear = true
    · exact NodeSt.Tables.drop hJ.empty (if_pos hc)
    · exact hs.of_eq (if_neg hc)
  unfold NodeSt.adopt
  dsimp only
  split
  · exact hdrop.setLBlock _ (hJ.cert _ _ (hdrop _))
  · exact hdrop

end Rounds

/-! ## What the handlers of requests check -/

section Check

variable {R : NodeSt → NodeSt → Prop} [IsQuiet R] {s : NodeSt} (Γ : NodeCtx) (t : Clock)

theorem moves_admitValidateBlockREQ (r : ValidateBlockREQ) (src : String) (mf : BlockMetaFull) :
    Moves nodeExec R (admitValidateBlockREQ Γ r src mf) s := by
  refine moves_get_bind (Moves.ite (fun _ => .pure _) fun _ => Moves.bind (moves_tree _) fun l s _ => ?_)
  exact Moves.ite (fun _ => .pure _) fun _ => Moves.ite (fun _ => .pure _) fun _ => moves_tree _

theorem moves_acceptsValidators (ba : BlockAcceptedREQ) : Moves nodeExec R (acceptsValidators Γ ba) s := by
  refine Moves.bind (moves_tree _) fun ns s _ => Moves.ite (fun _ => .pure _) fun _ => ?_
  refine Moves.bind (moves_getMetaFull _) fun mf s _ => Moves.bind (.ofExcept _) fun staked s _ => ?_
  exact Moves.bind (.ofExcept _) fun full s _ => Moves.bind (moves_tree _) fun q s _ => .pure _

theorem moves_admitBlockDBStore (r : BlockDBStore) (src : String) : Moves nodeExec R (admitBlockDBStore Γ t r src) s := by
  refine moves_get_bind (Moves.ite (fun _ => .pure _) fun _ => Moves.bind (moves_working t) fun _ s _ => moves_get_bind ?_)
  refine Moves.ite (fun _ => .pure _) fun _ => Moves.ite (fun _ => .pure _) fun _ => ?_
  refine Moves.bind (moves_getMetaFull _) fun mf s _ => moves_get_bind ?_
  exact Moves.ite (fun _ => .pure _) fun _ => moves_tree _

end Check

/-! ## The requests of other nodes -/

section Requests

variable (Γ : NodeCtx) (t : Clock) (s : NodeSt)

theorem rounds_send {m : Sent} (h : m.plain = true) : Moves nodeExec Rounds (Node.send m) s := Rounds.log h s

theorem rounds_doSync (src : String) : Moves nodeExec Rounds (doSync Γ src) s := by
  refine Moves.bind (moves_other fun _ => ⟨rfl, rfl, rfl, rfl, rfl⟩) fun _ s _ => ?_
  refine Moves.bind (moves_nodeIp _ _) fun ip s _ => ?_
  refine Moves.bind (moves_other fun _ => ⟨rfl, rfl, rfl, rfl, rfl⟩) fun _ s _ => ?_
  exact moves_get_bind (rounds_send s rfl)

theorem rounds_followRemote (remote : Option BlockAccepted2REQ) (src : String) :
    Moves nodeExec Rounds (followRemote Γ remote src) s := by
  refine Moves.bind (moves_modify (.of_eq rfl rfl)) fun _ s _ => ?_
  exact rounds_doSync Γ s src

theorem rounds_doHeartBeat (tnow : Int) : Moves nodeExec Rounds (doHeartBeat Γ t tnow) s := by
  refine Moves.bind (moves_working t) fun _ s _ => moves_get_bind ?_
  cases s.rival Γ tnow with
  | some hb => exact .pure hb
  | none =>
    refine Moves.bind (moves_getMetaFull tnow) fun _ s _ => moves_get_bind ?_
    refine Moves.bind (moves_modify (.startRound s _ _)) fun _ s _ => ?_
    exact Moves.bind (rounds_send s rfl) fun _ s _ => .pure _

theorem rounds_judge (h : HeartBeatREQ) (remote : Option BlockAccepted2REQ) : Moves nodeExec Rounds (judge Γ t h remote) s := by
  refine Moves.bind (moves_working t) fun _ s _ => ?_
  refine Moves.ite (fun _ => .pure _) fun _ => Moves.ite (fun _ => .pure _) fun _ => moves_get_bind ?_
  refine Moves.ite (fun _ => .pure _) fun _ => ?_
  have hexpire : Rounds s (s.expire t h.prevRootHash1) := by
    refine .of_eq ?_ ?_ <;> unfold NodeSt.expire <;> split
    · rfl
    · split <;> rfl
    · rfl
    · split <;> rfl
  refine Moves.bind (moves_modify hexpire) fun _ s _ => moves_get_bind ?_
  refine Moves.bind (moves_tree _) fun rv s _ => Moves.bind (moves_tree _) fun lv s _ => ?_
  split
  · exact .pure _
  · exact moves_calm (.judgeFirst Γ t h)
  · exact .pure _
  · exact moves_calm (.judgeNext Γ t h _ _)
  · exact .pure _

theorem rounds_replyHeartBeatRSP (h : HeartBeatREQ) : Moves nodeExec Rounds (replyHeartBeatRSP Γ t h) s :=
  Moves.bind (moves_working t) fun _ s _ => rounds_send s rfl

theorem rounds_carryOut (h : HeartBeatREQ) (remote : Option BlockAccepted2REQ) (src : String) (v : Verdict) :
    Moves nodeExec Rounds (carryOut Γ t h remote src v) s := by
  cases v with
  | reply => exact Moves.bind (rounds_replyHeartBeatRSP Γ t s h) fun _ s _ => .pure _
  | ignore forward => exact .pure _
  | delay msg =>
    refine Moves.bind (moves_nodeIp _ _) fun ip s _ => moves_get_bind ?_
    cases s.prevBlock with
    | none => exact Moves.bind (.pure _) fun _ s _ => .pure _
    | some lc => exact Moves.bind (rounds_send s rfl) fun _ s _ => .pure _
  | adopt clear cert =>
    refine Moves.bind (moves_modify (.adopt s clear cert h)) fun _ s _ => ?_
    exact Moves.bind (rounds_replyHeartBeatRSP Γ t s h) fun _ s _ => .pure _
  | promote forward => exact Moves.bind (rounds_doHeartBeat Γ t s _) fun _ s _ => .pure _
  | sync onlyIfEmpty =>
    refine moves_get_bind (Moves.ite (fun _ => .pure _) fun _ => ?_)
    exact Moves.bind (rounds_followRemote Γ s remote src) fun _ s _ => .pure _

theorem rounds_heartBeatREQ (h : HeartBeatREQ) (remote : Option BlockAccepted2REQ) (src : String) :
    Moves nodeExec Rounds (heartBeatREQ Γ t h remote src) s :=
  Moves.bind (rounds_judge Γ t s h remote) fun v s _ => rounds_carryOut Γ t s h remote src v

theorem rounds_confirmLeaderREQ (hb : HeartBeatREQ) : Moves nodeExec Rounds (confirmLeaderREQ Γ t hb) s := by
  refine moves_get_bind (Moves.ite (fun _ => .pure _) fun _ => Moves.bind (moves_working t) fun _ s _ => ?_)
  refine moves_get_bind (Moves.ite (fun _ => .pure _) fun _ => ?_)
  have hrecord : Rounds s (s.recordIfNone hb) := by
    refine .of_eq ?_ ?_ <;> unfold NodeSt.recordIfNone <;> split <;> rfl
  refine Moves.bind (moves_modify hrecord) fun _ s _ => moves_get_bind ?_
  exact Moves.ite (fun _ => rounds_send s rfl) fun _ => .pure _

theorem rounds_putTransactionREQ (tx : TX) : Moves nodeExec Rounds (putTransactionREQ Γ t tx) s := by
  refine Moves.bind (moves_other fun _ => ⟨rfl, rfl, rfl, rfl, rfl⟩) fun _ s _ => moves_get_bind ?_
  refine Moves.ite (fun _ => ?_) fun _ => .pure _
  refine Moves.bind (moves_working t) fun _ s _ => ?_
  exact Moves.bind (rounds_doHeartBeat Γ t s _) fun _ s _ => .pure _

theorem rounds_getTransactionREQ (hb : HeartBeatREQ) (src : String) :
    Moves nodeExec Rounds (getTransactionREQ t hb src) s := by
  refine Moves.bind (moves_working t) fun _ s _ => moves_get_bind ?_
  exact Moves.ite (fun _ => .pure _) fun _ => Moves.ite (fun _ => rounds_send s rfl) fun _ => .pure _

theorem rounds_validateBlockREQ (r : ValidateBlockREQ) (src : String) :
    Moves nodeExec Rounds (validateBlockREQ Γ t r src) s := by
  refine Moves.bind (moves_working t) fun _ s _ => moves_get_bind (Moves.ite (fun _ => .pure _) fun _ => ?_)
  refine Moves.bind (moves_other fun _ => ⟨rfl, rfl, rfl, rfl, rfl⟩) fun _ s _ => ?_
  refine Moves.bind (moves_getMetaFull _) fun mf s _ => ?_
  refine Moves.bind (moves_admitValidateBlockREQ Γ r src mf) fun ok s _ => Moves.ite (fun _ => ?_) fun _ => .pure _
  refine Moves.bind (moves_tree _) fun _ s _ => Moves.bind (moves_tree _) fun fees s _ => moves_get_bind ?_
  exact Moves.bind (moves_tree _) fun root s _ => moves_get_bind (rounds_send s rfl)

theorem rounds_blockDiffValidateREQ (r : BlockDiffValidateREQ) (src : String) :
    Moves nodeExec Rounds (blockDiffValidateREQ Γ t r src) s := by
  refine moves_get_bind (Moves.ite (fun _ => .pure _) fun _ => Moves.bind (moves_working t) fun _ s _ => moves_get_bind ?_)
  refine Moves.ite (fun _ => .pure _) fun _ => Moves.bind (moves_acceptsValidators Γ _) fun ok s _ => ?_
  refine Moves.ite (fun _ => ?_) fun _ => .pure _
  exact Moves.bind (moves_tree _) fun root s _ => Moves.ite (fun _ => .pure _) fun _ => rounds_send s rfl

theorem rounds_blockDBStore (r : BlockDBStore) (src : String) : Moves nodeExec Rounds (blockDBStore Γ t r src) s := by
  refine Moves.bind (moves_admitBlockDBStore Γ t r src) fun ok s _ => Moves.ite (fun _ => ?_) fun _ => .pure _
  refine Moves.bind (moves_modify (.of_eq rfl rfl)) fun _ s _ => Moves.bind (rounds_send s rfl) fun _ s _ => ?_
  have hfollow : Rounds s (s.follow Γ r) := ⟨fun J hJ _ => NodeSt.Tables.drop hJ.empty rfl, .none rfl⟩
  refine Moves.bind (moves_modify hfollow) fun _ s _ => Moves.bind (moves_tree _) fun _ s _ => ?_
  refine Moves.bind (moves_modify (.of_eq rfl rfl)) fun _ s _ => moves_get_bind ?_
  exact Moves.ite (fun _ => .pure _) fun _ => Moves.bind (rounds_doHeartBeat Γ t s _) fun _ s _ => .pure _

theorem rounds_delayNotificationREQ (lc : BlockAccepted2REQ) (src : String) :
    Moves nodeExec Rounds (delayNotificationREQ Γ lc src) s := by
  refine Moves.bind (moves_tree _) fun ok s _ => Moves.ite (fun _ => moves_get_bind ?_) fun _ => .pure _
  exact Moves.ite (fun _ => rounds_followRemote Γ s _ src) fun _ => .pure _

/-- Every request of another node. -/
theorem rounds_request (src : String) (r : Request) : Moves nodeExec Rounds (r.handler Γ t src) s := by
  cases r with
  | heartBeatREQ h remote => exact Moves.bind (rounds_heartBeatREQ Γ t s h remote src) fun _ s _ => .pure _
  | confirmLeaderREQ hb => exact rounds_confirmLeaderREQ Γ t s hb
  | getTransactionREQ hb => exact rounds_getTransactionREQ t s hb src
  | validateBlockREQ r => exact rounds_validateBlockREQ Γ t s r src
  | blockDiffValidateREQ r => exact rounds_blockDiffValidateREQ Γ t s r src
  | blockDBStore r => exact rounds_blockDBStore Γ t s r src
  | delayNotificationREQ lc => exact rounds_delayNotificationREQ Γ s lc src

theorem rounds_granulesArrived (db : StdMap Path Packed) (y : Sync) : Moves nodeExec Rounds (granulesArrived Γ db y) s := by
  refine Moves.bind (moves_other fun _ => ⟨rfl, rfl, rfl, rfl, rfl⟩) fun _ s _ => ?_
  exact Moves.ite (fun _ => moves_other fun _ => ⟨rfl, rfl, rfl, rfl, rfl⟩) fun _ => .pure _

end Requests

end Grain
