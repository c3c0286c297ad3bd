import Grain.Theorems.Counting

/-!
# The payload beside a certificate

The hashes of the transactions, of the writes and of the attachment are part of what a quorum signs. A node that applies or stores
a block compares none of them with what comes with the certificate, and neither does the leader, which passes on the payload of
the answer that made the quorum. The payload is the right one where leader and validators run this code; a stored block does not
carry the deleted keys, so that its writes have the signed hash only if there are none.
-/

namespace Grain

open Prog

/-- The payload has the hashes that are signed in the block. -/
structure Binds (b : BlockInfo) (txHashes : List String) (diffs : Diffs) (att : AttachmentData) : Prop where
  tx : b.txHash = joinAll txHashes
  diffs : b.diffsHash = diffs.update
  att : b.attDataHash = att.getHash

/-- The messages sent from `s` to `t`. -/
def sentFrom (s t : NodeSt) : List Sent := t.sent.drop s.sent.length

/-- If the event is a request to apply a block that the node answers, or to store one that it forwards, then the payload of the
request has the signed hashes. -/
def BindsStep (Γ : NodeCtx) (parse : String → Option Response) (e : Clock × NodeEvent) (s : NodeSt) : Prop :=
  match e.2 with
  | .request _ (.blockDiffValidateREQ r) =>
    (∃ x, .blockDiffValidateRSP x ∈ sentFrom s (nodeStep Γ parse e s)) →
      Binds r.blockAcceptedREQ.blockInfo r.txHashes r.diffs r.attData
  | .request _ (.blockDBStore r) =>
    .streamBlock r ∈ sentFrom s (nodeStep Γ parse e s) →
      Binds r.blockAccepted2REQ.blockAcceptedREQ.blockInfo r.txHashes { diffs := r.diffs } r.attData
  | _ => True

/-- It is so for every event of a run. -/
def BindsAll (Γ : NodeCtx) (parse : String → Option Response) : List (Clock × NodeEvent) → NodeSt → Prop
  | [], _ => True
  | e :: es, s => BindsStep Γ parse e s ∧ BindsAll Γ parse es (nodeStep Γ parse e s)

/-! ## Where a payload comes from -/

/-- A node that runs this code has answered a `ValidateBlockREQ` with it. -/
def Answered (v : ValidateBlockRSP) : Prop :=
  ∃ Γ t r src u, .validateBlockRSP v ∈ sentFrom u (runNode (validateBlockREQ Γ t r src) u).2

/-- A run of a leader whose alarms are its own, and in which the answers to `ValidateBlockREQ` that pass the checks are in `Q`. -/
def LeaderRun (Q : ValidateBlockRSP → Prop) (Γ : NodeCtx) (parse : String → Option Response) :
    List (Clock × NodeEvent) → NodeSt → Prop
  | [], _ => True
  | e :: es, s =>
    (∀ src v, (src, .validateBlockRSP v) ∈ delivered Γ parse e.2 s → (runNode (admitValidateBlockRSP Γ v) s).1 = .ok true → Q v) ∧
    (∀ a, e.2 = .alarm a → .resetAlarm a ∈ s.sent) ∧ LeaderRun Q Γ parse es (nodeStep Γ parse e s)

/-- A leader with empty tables has sent the message in such a run. -/
def Produced (Q : ValidateBlockRSP → Prop) (m : Sent) : Prop :=
  ∃ Γ parse es s, s.lBlocks = ∅ ∧ s.sent = [] ∧ LeaderRun Q Γ parse es s ∧ m ∈ (nodeRun Γ parse es s).sent

/-- The node would answer a request to apply a block, or has checked one to store a block: a leader that runs this code has sent
it, with answers of validators that run it, and for a block to store the validators have deleted no leaf in it. -/
def Vouched (Γ : NodeCtx) (e : Clock × NodeEvent) (s : NodeSt) : Prop :=
  match e.2 with
  | .request _ (.blockDiffValidateREQ r) =>
    (runNode (acceptsValidators Γ r.blockAcceptedREQ) (runNode (working e.1) s).2).1 = .ok true →
      Produced Answered (.blockDiffValidateREQ r)
  | .request src (.blockDBStore r) =>
    (runNode (admitBlockDBStore Γ e.1 r src) s).1 = .ok true →
      Produced (fun v => Answered v ∧
        (v.blockInfo = r.blockAccepted2REQ.blockAcceptedREQ.blockInfo → v.diffs.deleted = ∅)) (.blockDBStore r)
  | _ => True

/-- It is so for every event of a run. -/
def VouchedAll (Γ : NodeCtx) (parse : String → Option Response) : List (Clock × NodeEvent) → NodeSt → Prop
  | [], _ => True
  | e :: es, s => Vouched Γ e s ∧ VouchedAll Γ parse es (nodeStep Γ parse e s)

/-! ## The validators -/

theorem mem_sentFrom {P : Sent → Prop} {s t : NodeSt} {m : Sent} (h : Sends P s t) (hm : m ∈ sentFrom s t) : P m := by
  obtain ⟨new, hnew, hall⟩ := h
  unfold sentFrom at hm
  rw [hnew, List.drop_left] at hm
  exact hall m hm

section Validators

variable {Γ : NodeCtx} {s : NodeSt}

/-- The only message with a payload that an answer to `ValidateBlockREQ` sends binds it. -/
theorem sends_validateBlockREQ (t : Clock) (r : ValidateBlockREQ) (src : String) :
    Moves nodeExec (Sends fun m => ∀ v, m = .validateBlockRSP v → Binds v.blockInfo v.txHashes v.diffs v.attData)
      (validateBlockREQ Γ t r src) s := by
  refine Moves.bind (moves_working t) fun _ s _ => moves_get_bind (Moves.ite (fun _ => .pure _) fun _ => ?_)
  refine Moves.bind (moves_other fun _ => ⟨rfl, rfl, rfl, rfl, rfl⟩) fun _ s _ => ?_
  refine Moves.bind (moves_getMetaFull _) fun mf s _ => ?_
  refine Moves.bind (moves_admitValidateBlockREQ Γ r src mf) fun ok s _ => Moves.ite (fun _ => ?_) fun _ => .pure _
  refine Moves.bind (moves_tree _) fun _ s _ => Moves.bind (moves_tree _) fun fees s _ => moves_get_bind ?_
  refine Moves.bind (moves_tree _) fun root s _ => moves_get_bind (Sends.log fun v hv => ?_)
  rw [← Sent.validateBlockRSP.inj hv]
  exact ⟨rfl, rfl, rfl⟩

theorem Answered.binds {v : ValidateBlockRSP} (h : Answered v) : Binds v.blockInfo v.txHashes v.diffs v.attData := by
  obtain ⟨Γ, t, r, src, u, hv⟩ := h
  exact mem_sentFrom (sends_validateBlockREQ (Γ := Γ) (s := u) t r src) hv v rfl

end Validators

/-! ## The leader -/

/-- The block that is stored when the request has been answered. -/
def BlockDiffValidateREQ.store (bdv : BlockDiffValidateREQ) (rs : List BlockDiffValidateRSP) : BlockDBStore where
  blockAccepted2REQ := accepted2Of bdv.blockAcceptedREQ rs
  txHashes := bdv.txHashes
  diffs := bdv.diffs.diffs
  attData := bdv.attData

/-- The request carries the payload of an answer to `ValidateBlockREQ`, for the same block. -/
def OfAnswer (Q : ValidateBlockRSP → Prop) (bdv : BlockDiffValidateREQ) : Prop := ∃ v rs, Q v ∧ bdv = v.request rs

/-- The request that a leader keeps does so. -/
def KeepsAnswer (Q : ValidateBlockRSP → Prop) (bt : BlockLeader) : Prop :=
  ∀ bdv, bt.blockDiffValidateREQ = some bdv → OfAnswer Q bdv

/-- The messages about accepted blocks do so. -/
def CarriesAnswer (Q : ValidateBlockRSP → Prop) : Sent → Prop
  | .blockDiffValidateREQ r => OfAnswer Q r
  | .resetAlarm (.blockDiffValidateREQ r) => OfAnswer Q r
  | .blockDBStore r => ∃ bdv rs, OfAnswer Q bdv ∧ r = bdv.store rs
  | .resetAlarm (.blockDBStore r) => ∃ bdv rs, OfAnswer Q bdv ∧ r = bdv.store rs
  | _ => True

section Leader

variable {Q : ValidateBlockRSP → Prop} {Γ : NodeCtx} {parse : String → Option Response} {s : NodeSt}

theorem keepsAnswer_closed (Q : ValidateBlockRSP → Prop) : Closed (KeepsAnswer Q) where
  empty := fun bdv h => nomatch h
  cert _ _ h := h
  infoZ bt b h := by
    unfold BlockLeader.setBlockInfoZ
    split
    · exact h
    · exact h
  clearHeartBeat _ _ h := h
  clearConfirm _ h := h
  clearGetTransaction _ _ h := h
  clearValidate _ _ h := h
  clearDiff _ _ h := h

theorem carriesAnswer_of_plain {m : Sent} (h : m.plain = true) : CarriesAnswer Q m := by
  cases m with
  | blockDiffValidateREQ r => nomatch h
  | blockDBStore r => nomatch h
  | resetAlarm a => nomatch h
  | _ => trivial

theorem carriesAnswer_of_early {m : Sent} (h : m.early = true) : CarriesAnswer Q m := by
  unfold Sent.early at h
  split at h
  · trivial
  · exact carriesAnswer_of_plain h

theorem sends_of_early {α : Type} {m : Node α} (h : Moves nodeExec Early m s) : Moves nodeExec (Sends (CarriesAnswer Q)) m s :=
  Sends.mono h fun _ => carriesAnswer_of_early

/-- The response that makes the quorum gives the request its payload. -/
theorem sends_validateBlockRSP (r : ValidateBlockRSP) (hr : (runNode (admitValidateBlockRSP Γ r) s).1 = .ok true → Q r) :
    Moves nodeExec (Sends (CarriesAnswer Q)) (validateBlockRSP Γ r) s := by
  refine Moves.bind (moves_admitValidateBlockRSP r) fun ok u hok => Moves.ite (fun htrue => ?_) fun _ => .pure _
  have hq : Q r := by
    refine hr ?_
    change (runNode (admitValidateBlockRSP Γ r) s) = _ at hok
    rw [hok, htrue]
  refine Moves.bind sends_onBt fun _ s _ => Moves.bind (moves_getMetaFull _) fun mf s _ => moves_get_bind ?_
  refine Moves.bind (moves_tree _) fun q s _ => Moves.ite (fun _ => ?_) fun _ => .pure _
  refine Moves.bind sends_onBt fun _ s _ => moves_get_bind (Moves.bind (moves_tree _) fun ns s _ => ?_)
  refine Moves.ite (fun _ => Moves.bind (Sends.log ?_) fun _ s _ => sends_onBt) fun _ => .pure _
  exact ⟨r, _, hq, rfl⟩

/-- The request that the leader keeps gives the block to store its payload. -/
theorem sends_blockDiffValidateRSP (r : BlockDiffValidateRSP) (hs : s.Tables (KeepsAnswer Q)) :
    Moves nodeExec (Sends (CarriesAnswer Q)) (blockDiffValidateRSP Γ r) s := by
  refine Moves.bind (moves_admitBlockDiffValidateRSP r) fun ok u hok => Moves.ite (fun _ => ?_) fun _ => .pure _
  have hu : u.Tables (KeepsAnswer Q) := by
    have hsame : SameRound s (runNode (admitBlockDiffValidateRSP Γ r) s).2 := moves_admitBlockDiffValidateRSP r
    change runNode (admitBlockDiffValidateRSP Γ r) s = _ at hok
    rw [hok] at hsame
    exact hs.of_eq hsame.lBlocks
  refine Moves.bind sends_onBt fun _ w hw => moves_get_bind ?_
  obtain rfl : u.onBt (fun bt => bt.addBlockDiffValidateRSP r) = w := (Prod.mk.inj hw).2
  have hkept : KeepsAnswer Q (u.onBt fun bt => bt.addBlockDiffValidateRSP r).bt := by
    rw [NodeSt.bt_onBt]
    exact hu u.prevRootHashZ
  refine Moves.bind (moves_tree _) fun q w hq => Moves.ite (fun _ => moves_get_bind ?_) fun _ => .pure _
  obtain ⟨-, rfl⟩ := tree_state Γ (.treeQuorum _) hq
  refine Moves.bind (moves_tree _) fun bdv w hneed => ?_
  obtain ⟨hbdv, rfl⟩ := tree_state Γ (.need _) hneed
  refine Moves.bind (moves_tree _) fun ns w _ => Moves.bind (moves_raiseIf _ _) fun _ w _ => Sends.log ?_
  refine ⟨bdv, _, hkept bdv ?_, rfl⟩
  cases hreq : (u.onBt fun bt => bt.addBlockDiffValidateRSP r).bt.blockDiffValidateREQ with
  | none =>
    rw [hreq] at hbdv
    nomatch hbdv
  | some x =>
    rw [hreq] at hbdv
    rw [Except.ok.inj hbdv]

/-- Every response. -/
theorem sends_response (t : Clock) (src : String) (r : Response) (hs : s.Tables (KeepsAnswer Q))
    (hr : ∀ v, r = .validateBlockRSP v → (runNode (admitValidateBlockRSP Γ v) s).1 = .ok true → Q v) :
    Sends (CarriesAnswer Q) s (runNode (r.handler Γ t src) s).2 := by
  cases r with
  | heartBeatRSP r => exact sends_of_early (early_heartBeatRSP Γ t r)
  | confirmLeaderRSP r => exact sends_of_early (early_confirmLeaderRSP Γ t r)
  | getTransactionRSP r => exact sends_of_early (early_getTransactionRSP Γ src r)
  | validateBlockRSP r => exact sends_validateBlockRSP r (hr r rfl)
  | blockDiffValidateRSP r => exact sends_blockDiffValidateRSP r hs

theorem sends_doStartBlock : Moves nodeExec (Sends (CarriesAnswer Q)) (doStartBlock Γ) s := by
  refine moves_get_bind (Moves.ite (fun _ => .pure _) fun _ => Moves.ite (fun _ => .pure _) fun _ => ?_)
  cases s.bt.leaderCert2 with
  | none => exact .pure _
  | some hb =>
    refine Moves.bind (moves_getMetaFull _) fun mf s _ => moves_get_bind (Moves.bind (moves_tree _) fun lc s _ => ?_)
    have hpool : Moves nodeExec (Sends (CarriesAnswer Q)) (collectTransactions Γ) s := by
      refine moves_get_bind (Moves.bind (.ofExcept _) fun o u _ => ?_)
      exact moves_other fun _ => ⟨rfl, rfl, rfl, rfl, rfl⟩
    exact Moves.bind hpool fun _ s _ => moves_get_bind (Sends.log trivial)

/-- An alarm sends what it was set for. -/
theorem sends_onAlarm (a : Alarm) (ha : CarriesAnswer Q (.resetAlarm a)) :
    Moves nodeExec (Sends (CarriesAnswer Q)) (onAlarm Γ a) s := by
  cases a with
  | getTransactionRSP hbHash =>
    refine moves_get_bind (Moves.ite (fun _ => .pure _) fun _ => Moves.bind (moves_tree _) fun q s _ => ?_)
    exact Moves.ite (fun _ => Moves.bind sends_doStartBlock fun _ s _ => sends_onBt) fun _ => .pure _
  | blockDBStore r =>
    refine moves_get_bind (Moves.bind (moves_tree _) fun q s _ => Moves.ite (fun _ => ?_) fun _ => .pure _)
    refine Moves.bind (moves_getMetaFull _) fun mf s _ => Moves.bind (Sends.log ha) fun _ s _ => ?_
    exact sends_onBt
  | blockDiffValidateREQ r =>
    refine Moves.bind (moves_getMetaFull _) fun mf s _ => moves_get_bind (Moves.bind (moves_tree _) fun q s _ => ?_)
    exact Moves.ite (fun _ => Moves.bind (Sends.log ha) fun _ s _ => sends_onBt) fun _ => .pure _

/-- What a leader keeps and what it has sent carries payloads of answers. -/
structure Answers (Q : ValidateBlockRSP → Prop) (s : NodeSt) : Prop where
  tables : s.Tables (KeepsAnswer Q)
  sent : ∀ m ∈ s.sent, CarriesAnswer Q m

theorem Answers.move {t : NodeSt} (h : Answers Q s) (htables : Carries (KeepsAnswer Q) s t) (hsent : Sends (CarriesAnswer Q) s t) :
    Answers Q t := by
  obtain ⟨new, hnew, hall⟩ := hsent
  refine ⟨htables h.tables, fun m hm => ?_⟩
  rw [hnew] at hm
  rcases List.mem_append.1 hm with hm | hm
  · exact h.sent m hm
  · exact hall m hm

theorem Answers.rounds {t : NodeSt} (h : Answers Q s) (hr : Rounds s t) : Answers Q t :=
  h.move (hr.tables _ (keepsAnswer_closed Q)) (hr.sent.mono fun _ => carriesAnswer_of_plain)

theorem Answers.response {m : NodeMsgRSP} (t : Clock) (h : Answers Q s)
    (hr : ∀ src v, (src, .validateBlockRSP v) ∈ delivered Γ parse (.response m) s →
      (runNode (admitValidateBlockRSP Γ v) s).1 = .ok true → Q v) :
    Answers Q (nodeStep Γ parse (t, .response m) s) := by
  have hopen : SameRound s (runNode (openRSP Γ parse m) s).2 := moves_openRSP parse m
  change ∀ src v, (src, Response.validateBlockRSP v) ∈ (opened Γ parse m s).toList.map _ → _ at hr
  change Answers Q (runNode (nodeMsgRSP Γ parse t m) s).2
  unfold nodeMsgRSP
  rw [runNode_bind]
  unfold opened at hr
  rcases hrun : runNode (openRSP Γ parse m) s with ⟨e | r, u⟩ <;> rw [hrun] at hopen hr
  · exact h.move (fun hs => hs.of_eq hopen.lBlocks) (.none hopen.sent)
  cases r with
  | none => exact h.move (fun hs => hs.of_eq hopen.lBlocks) (.none hopen.sent)
  | some r =>
    obtain rfl := (openRSP_ok hrun).1
    have hanswer : ∀ v, r = .validateBlockRSP v → (runNode (admitValidateBlockRSP Γ v) u).1 = .ok true → Q v := by
      rintro v rfl
      exact hr m.nodeSigner v (List.mem_singleton_self _)
    refine h.move (fun hs => ?_) (sends_response t m.nodeSigner r h.tables hanswer)
    refine tables_response (keepsAnswer_closed Q) (fun bt hbt => hbt) t r ?_ ?_ hs
    · intro _ hbt
      cases r with
      | _ => exact hbt
    · rintro hok v rs bt rfl - bdv hbdv
      exact ⟨v, rs, hanswer v rfl hok, (Option.some.inj hbdv).symm⟩

/-- One event of a leader's run. -/
theorem Answers.step {e : Clock × NodeEvent} {es : List (Clock × NodeEvent)} (h : Answers Q s)
    (hrun : LeaderRun Q Γ parse (e :: es) s) : Answers Q (nodeStep Γ parse e s) := by
  obtain ⟨t, e⟩ := e
  obtain ⟨hanswer, halarm, -⟩ := hrun
  cases e with
  | response m => exact h.response t hanswer
  | request src r => exact h.rounds (rounds_request Γ t s src r)
  | putTransactionREQ tx => exact h.rounds (rounds_putTransactionREQ Γ t s tx)
  | alarm a => exact h.move (carries_onAlarm (keepsAnswer_closed Q) a) (sends_onAlarm a (h.sent _ (halarm a rfl)))
  | granules db y => exact h.rounds (rounds_granulesArrived Γ s db y)

theorem Answers.run {es : List (Clock × NodeEvent)} (h : Answers Q s) (hrun : LeaderRun Q Γ parse es s) :
    Answers Q (nodeRun Γ parse es s) := by
  induction es generalizing s with
  | nil => exact h
  | cons e es ih => exact ih (h.step hrun) hrun.2.2

/-- What a leader has sent in its run carries the payloads of answers. -/
theorem Produced.carries {m : Sent} (h : Produced Q m) : CarriesAnswer Q m := by
  obtain ⟨Γ, parse, es, s, hblocks, hsent, hrun, hm⟩ := h
  have hstart : Answers Q s := by
    refine ⟨NodeSt.Tables.drop (keepsAnswer_closed Q).empty hblocks, ?_⟩
    rw [hsent]
    exact fun m hm => nomatch hm
  exact (hstart.run hrun).sent m hm

end Leader

/-! ## Those who apply and store the block -/

section Receivers

variable {Γ : NodeCtx} {s : NodeSt}

/-- A request to apply a block is answered only if its certificate is accepted. -/
theorem accepts_of_answer {t : Clock} {r : BlockDiffValidateREQ} {src : String} {x : Sent}
    (h : x ∈ sentFrom s (runNode (blockDiffValidateREQ Γ t r src) s).2) :
    (runNode (acceptsValidators Γ r.blockAcceptedREQ) (runNode (working t) s).2).1 = .ok true := by
  have hnone : ∀ u, u.sent = s.sent → x ∈ sentFrom s u → False := fun u hu => mem_sentFrom (P := fun _ => False) (.none hu)
  unfold blockDiffValidateREQ at h
  rw [runNode_get_bind] at h
  split at h
  · exact (hnone _ rfl h).elim
  rw [runNode_bind] at h
  have hworking : SameRound s (runNode (working t) s).2 := moves_working t
  rcases hw : runNode (working t) s with ⟨e | a, u⟩ <;> rw [hw] at h hworking
  · exact (hnone _ hworking.sent h).elim
  dsimp only at h ⊢
  rw [runNode_get_bind] at h
  split at h
  · exact (hnone _ hworking.sent h).elim
  rw [runNode_bind] at h
  have haccepts : SameRound u (runNode (acceptsValidators Γ r.blockAcceptedREQ) u).2 := moves_acceptsValidators Γ _
  rcases ha : runNode (acceptsValidators Γ r.blockAcceptedREQ) u with ⟨e | ok, w⟩ <;> rw [ha] at h haccepts
  · exact (hnone _ (haccepts.sent.trans hworking.sent) h).elim
  cases ok with
  | false => exact (hnone _ (haccepts.sent.trans hworking.sent) h).elim
  | true => rfl

/-- A block is forwarded only if it has passed the checks. -/
theorem admits_of_store {t : Clock} {r : BlockDBStore} {src : String} {x : Sent}
    (h : x ∈ sentFrom s (runNode (blockDBStore Γ t r src) s).2) : (runNode (admitBlockDBStore Γ t r src) s).1 = .ok true := by
  have hnone : ∀ u, u.sent = s.sent → x ∈ sentFrom s u → False := fun u hu => mem_sentFrom (P := fun _ => False) (.none hu)
  unfold blockDBStore at h
  rw [runNode_bind] at h
  have hadmit : SameRound s (runNode (admitBlockDBStore Γ t r src) s).2 := moves_admitBlockDBStore Γ t r src
  rcases ha : runNode (admitBlockDBStore Γ t r src) s with ⟨e | ok, u⟩ <;> rw [ha] at h hadmit
  · exact (hnone _ hadmit.sent h).elim
  cases ok with
  | false => exact (hnone _ hadmit.sent h).elim
  | true => rfl

/-- One event. -/
theorem bindsStep_of {parse : String → Option Response} {e : Clock × NodeEvent} (h : Vouched Γ e s) : BindsStep Γ parse e s := by
  obtain ⟨t, e⟩ := e
  cases e with
  | request src r =>
    cases r with
    | blockDiffValidateREQ r =>
      rintro ⟨x, hx⟩
      have hproduced : Produced Answered (.blockDiffValidateREQ r) := h (accepts_of_answer hx)
      obtain ⟨v, rs, hv, rfl⟩ := hproduced.carries
      exact hv.binds
    | blockDBStore r =>
      intro hx
      obtain ⟨bdv, rs, ⟨v, vs, ⟨hv, hdeleted⟩, rfl⟩, rfl⟩ := (h (admits_of_store hx)).carries
      have hbinds := hv.binds
      have hnone : v.diffs = { diffs := v.diffs.diffs } := by
        have hempty : v.diffs.deleted = ∅ := hdeleted rfl
        rw [← hempty]
      rw [hnone] at hbinds
      exact hbinds
    | _ => trivial
  | _ => trivial

end Receivers

/-- In a run in which the blocks that a node would apply or has checked come from leaders and validators that run this code, and
the blocks to store delete no leaf, the payload that comes with a block is always the one with the signed hashes. -/
theorem payload_binds (Γ : NodeCtx) (parse : String → Option Response) (es : List (Clock × NodeEvent)) (s : NodeSt)
    (h : VouchedAll Γ parse es s) : BindsAll Γ parse es s := by
  induction es generalizing s with
  | nil => trivial
  | cons e es ih => exact ⟨bindsStep_of h.1, ih _ h.2⟩

/-! ## A payload that is not the signed one -/

namespace Sample

/-- The heartbeat of the leader arrives. -/
def followN : Clock × NodeEvent := (clock 5, .request "n" (.heartBeatREQ (heartBeat "n" 5) none))

/-- The leader asks to apply a block. -/
def apply (r : BlockDiffValidateREQ) : Clock × NodeEvent := (clock 5, .request "n" (.blockDiffValidateREQ r))

/-- A certificate over a block without transactions, and the hash of a transaction beside it. -/
def forgedRequest : BlockDiffValidateREQ :=
  let b : BlockInfo := { newRootHash1 := "root", heartBeat := heartBeat "n" 5 }
  let v : ValidateBlockRSP := { blockInfo := b, sig := { pk := "n", msg := b.getHash }, nodeValidator := "n" }
  { blockAcceptedREQ := acceptedOf b [v], txHashes := ["x"] }

/-- A state in which the leader is recorded. -/
def ledByN : NodeSt :=
  { signedSt with cliLeaderInfo := (∅ : StdMap String ClientLeaderInfo).insert "" { nodeLeader := some (heartBeat "n" 5) } }

/-- The leader's request to execute a block without transactions. -/
def emptyBlock : ValidateBlockREQ where
  heartBeat := heartBeat "n" 5
  lc :=
    { hb := heartBeat "n" 5
      nodeValidators := (((∅ : StdSet String).insert "m").insert "n").insert "o"
      aggSig := ["m", "n", "o"].map fun n => { pk := n, msg := (heartBeat "n" 5).getHash } }

/-- The answer in a message, the alarm for a request, the request, the answer to it. -/
def asAnswer : Sent → Option ValidateBlockRSP
  | .validateBlockRSP v => some v
  | _ => none

def asAlarm : Sent → Option BlockDiffValidateREQ
  | .resetAlarm (.blockDiffValidateREQ r) => some r
  | _ => none

def asRequest : Sent → Option BlockDiffValidateREQ
  | .blockDiffValidateREQ r => some r
  | _ => none

def asDiffAnswer : Sent → Option BlockDiffValidateRSP
  | .blockDiffValidateRSP r => some r
  | _ => none

/-- The leader's own answer. -/
def ownAnswer : ValidateBlockRSP :=
  ((sentFrom ledByN (runNode (validateBlockREQ (nodeCtx "n") (clock 5) emptyBlock "n") ledByN).2).findSome? asAnswer).getD
    { sig := { pk := "", msg := "" } }

def parseOwn : String → Option Response := fun _ => some (.validateBlockRSP ownAnswer)

/-- The request that the leader makes of it. -/
def ownAlarm : BlockDiffValidateREQ :=
  ((nodeRun (nodeCtx "n") parseOwn [answer "n" 'n'] ledByN).sent.findSome? asAlarm).getD {}

/-- What the leader does until it sends the request. -/
def leaderRun : List (Clock × NodeEvent) := [answer "n" 'n', (clock 5, .alarm (.blockDiffValidateREQ ownAlarm))]

def ownRequest : BlockDiffValidateREQ :=
  ((nodeRun (nodeCtx "n") parseOwn leaderRun ledByN).sent.findSome? asRequest).getD {}

end Sample

end Grain
