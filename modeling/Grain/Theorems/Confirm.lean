import Grain.Lemmas.Reads
import Grain.Genesis

/-!
# One leader for a window

A node signs a confirmation only for the heartbeat it has recorded, so it confirms two different heartbeats of one root and one
window only if it records the second after it has confirmed the first. Nothing in the handlers keeps it from doing so: a
heartbeat of a node that stands before the recorded leader takes its place, a recorded leader whose window is over makes room for
any other, and the node's own heartbeat replaces an earlier one of its own.
-/

namespace Grain

/-- The heartbeat that a message confirms. -/
def Sent.confirmed? : Sent → Option HeartBeatREQ
  | .confirmLeaderRSP r => some r.hb
  | _ => none

namespace NodeSt

/-- The heartbeats the node has signed a confirmation for. -/
def confirmed (s : NodeSt) : List HeartBeatREQ := s.sent.filterMap Sent.confirmed?

/-- The recorded leader of a root. -/
def leader (s : NodeSt) (root : String) : Option HeartBeatREQ := (s.cli root).nodeLeader

/-- No other heartbeat of the root and the window of this one has been confirmed. -/
def Open (s : NodeSt) (h : HeartBeatREQ) : Prop :=
  ∀ c ∈ s.confirmed, c.prevRootHash1 = h.prevRootHash1 → c.window = h.window → c = h

/-- The same for the heartbeat that `do_heart_beat` would record. -/
def OpenOwn (Γ : NodeCtx) (s : NodeSt) (tnow : Int) : Prop := s.rival Γ tnow = none → s.Open (s.ownHeartBeat Γ tnow)

/-- At most one heartbeat of a root and a window has been confirmed. -/
def ConfirmsOne (s : NodeSt) : Prop :=
  ∀ a ∈ s.confirmed, ∀ b ∈ s.confirmed, a.prevRootHash1 = b.prevRootHash1 → a.window = b.window → a = b

end NodeSt

/-- The branch in which `HeartBeatREQ` ends does not record a heartbeat where another was confirmed. -/
def RespectsVerdict (Γ : NodeCtx) (s : NodeSt) (h : HeartBeatREQ) : Except Stop Verdict × NodeSt → Prop
  | (.ok (.adopt _ _), _) => s.Open h
  | (.ok (.promote _), s') => s'.OpenOwn Γ h.blockTimestamp
  | _ => True

/-- The event does not make the node record a heartbeat where it has confirmed another of the same root and window: not by
taking over the heartbeat it brings, not by filling the place of a leader that was dropped, and not by a heartbeat of its own. -/
def Respects (Γ : NodeCtx) (t : Clock) (s : NodeSt) : ElectionEvent → Prop
  | .heartBeatREQ h remote _ => RespectsVerdict Γ s h (runNode (judge Γ t h remote) s)
  | .confirmLeaderREQ hb => s.prevRootHashZ = hb.prevRootHash1 → s.leader hb.prevRootHash1 = none → s.Open hb
  | .putTransactionREQ _ => t.now - s.stageIsWorking > stageIsWorkingTimeout * oneSec → s.OpenOwn Γ t.time

/-- Every event of the run respects what was confirmed before it. -/
def RespectsAll (Γ : NodeCtx) : List (Clock × ElectionEvent) → NodeSt → Prop
  | [], _ => True
  | e :: es, s => Respects Γ e.1 s e.2 ∧ RespectsAll Γ es (electionStep Γ e s)

section Decidable

variable (Γ : NodeCtx) (t : Clock) (s : NodeSt)

instance (h : HeartBeatREQ) : Decidable (s.Open h) := inferInstanceAs (Decidable (∀ c ∈ s.confirmed, _))

instance (tnow : Int) : Decidable (s.OpenOwn Γ tnow) := inferInstanceAs (Decidable (_ → _))

instance (h : HeartBeatREQ) : (r : Except Stop Verdict × NodeSt) → Decidable (RespectsVerdict Γ s h r)
  | (.ok (.adopt _ _), _) => inferInstanceAs (Decidable (s.Open h))
  | (.ok (.promote _), s') => inferInstanceAs (Decidable (s'.OpenOwn Γ h.blockTimestamp))
  | (.ok .reply, _) | (.ok (.ignore _), _) | (.ok (.delay _), _) | (.ok (.sync _), _) | (.error _, _) => .isTrue trivial

instance (e : ElectionEvent) : Decidable (Respects Γ t s e) :=
  match e with
  | .heartBeatREQ h remote _ => inferInstanceAs (Decidable (RespectsVerdict Γ s h _))
  | .confirmLeaderREQ hb => inferInstanceAs (Decidable (_ → _ → s.Open hb))
  | .putTransactionREQ _ => inferInstanceAs (Decidable (_ → s.OpenOwn Γ t.time))

instance respectsAllDecidable : (es : List (Clock × ElectionEvent)) → (s : NodeSt) → Decidable (RespectsAll Γ es s)
  | [], _ => .isTrue trivial
  | e :: es, s => @instDecidableAnd _ _ inferInstance (respectsAllDecidable es (electionStep Γ e s))

end Decidable

/-! ## Recording -/

section Fields

variable (s : NodeSt) (root r : String)

@[simp] theorem NodeSt.cli_setCli (c : ClientLeaderInfo) : (s.setCli root c).cli r = if root = r then c else s.cli r := by
  unfold NodeSt.cli NodeSt.setCli
  rw [StdMap.getElem?_insert]
  split <;> rfl

theorem NodeSt.leader_setCli (c : ClientLeaderInfo) :
    (s.setCli root c).leader r = if root = r then c.nodeLeader else s.leader r := by
  unfold NodeSt.leader
  rw [NodeSt.cli_setCli]
  split <;> rfl

theorem NodeSt.confirmed_log (m : Sent) : (s.log m).confirmed = s.confirmed ++ m.confirmed?.toList := by
  unfold NodeSt.confirmed NodeSt.log
  rw [List.filterMap_append]
  cases h : m.confirmed? <;> simp [h]

end Fields

/-- From `s` to `t` no leader was recorded, but for `hb`, and nothing was confirmed. -/
structure Records (hb : Option HeartBeatREQ) (s t : NodeSt) : Prop where
  leader : ∀ r l, t.leader r = some l → hb = some l ∨ s.leader r = some l
  confirmed : t.confirmed = s.confirmed

namespace Records

variable {hb : Option HeartBeatREQ} {s t u : NodeSt}

theorem refl (hb : Option HeartBeatREQ) (s : NodeSt) : Records hb s s := ⟨fun _ _ h => .inr h, rfl⟩

theorem trans (h : Records hb s t) (h' : Records hb t u) : Records hb s u := by
  refine ⟨fun r l hl => ?_, h'.confirmed.trans h.confirmed⟩
  rcases h'.leader r l hl with hl | hl
  · exact .inl hl
  · exact h.leader r l hl

theorem weaken (h : Records none s t) : Records hb s t := by
  refine ⟨fun r l hl => ?_, h.confirmed⟩
  rcases h.leader r l hl with hl | hl
  · nomatch hl
  · exact .inr hl

/-- A change of the other fields. -/
theorem of_eq (hcli : t.cliLeaderInfo = s.cliLeaderInfo) (hsent : t.sent = s.sent) : Records hb s t := by
  refine ⟨fun r l hl => .inr ?_, ?_⟩
  · unfold NodeSt.leader NodeSt.cli at hl ⊢
    rwa [hcli] at hl
  · unfold NodeSt.confirmed
    rw [hsent]

theorem of_calm (h : Calm s t) : Records hb s t := by
  obtain ⟨y, m, rfl⟩ := h
  exact of_eq rfl rfl

/-- Recording one heartbeat, with a change of the other fields. -/
theorem setCli (hcli : t.cliLeaderInfo = s.cliLeaderInfo) (hsent : t.sent = s.sent) (h : HeartBeatREQ) (root : String)
    (m : StdMap Int Int) : Records (some h) s (t.setCli root { nodeLeader := some h, heartBeatSent := m }) := by
  refine (of_eq hcli hsent).trans ⟨fun r l hl => ?_, rfl⟩
  rw [NodeSt.leader_setCli] at hl
  split at hl
  · exact .inl hl
  · exact .inr hl

theorem log (h : Records hb s t) {m : Sent} (hm : m.confirmed? = none) : Records hb s (t.log m) := by
  refine ⟨h.leader, ?_⟩
  rw [NodeSt.confirmed_log, hm, h.confirmed]
  simp

end Records

/-- What is recorded may be confirmed, and what was confirmed is one heartbeat for a root and a window. -/
structure Settled (s : NodeSt) : Prop where
  openLeader : ∀ l, s.leader l.prevRootHash1 = some l → s.Open l
  one : s.ConfirmsOne

/-- Recording a heartbeat that may be confirmed keeps the state settled. -/
theorem Settled.records {s t : NodeSt} (hs : Settled s) {hb : Option HeartBeatREQ} (hopen : ∀ l, hb = some l → s.Open l)
    (h : Records hb s t) : Settled t := by
  refine ⟨fun l hl => ?_, ?_⟩
  · have hsl : s.Open l := by
      rcases h.leader _ l hl with hl | hl
      · exact hopen l hl
      · exact hs.openLeader l hl
    unfold NodeSt.Open
    rw [h.confirmed]
    exact hsl
  · unfold NodeSt.ConfirmsOne
    rw [h.confirmed]
    exact hs.one

theorem Settled.records_none {s t : NodeSt} (hs : Settled s) (h : Records none s t) : Settled t := by
  refine hs.records ?_ h
  intro l hl
  nomatch hl

/-- Confirming the recorded heartbeat keeps the state settled. -/
theorem Settled.confirm {s : NodeSt} (hs : Settled s) {r : ConfirmLeaderRSP} (h : s.leader r.hb.prevRootHash1 = some r.hb) :
    Settled (s.log (.confirmLeaderRSP r)) := by
  have hopen := hs.openLeader r.hb h
  have hc : (s.log (.confirmLeaderRSP r)).confirmed = s.confirmed ++ [r.hb] := NodeSt.confirmed_log _ _
  refine ⟨fun l hl => ?_, ?_⟩
  · intro c hmem hroot hwin
    rw [hc, List.mem_append, List.mem_singleton] at hmem
    rcases hmem with hmem | rfl
    · exact hs.openLeader l hl c hmem hroot hwin
    · -- the same root has one recorded leader
      have hl' : s.leader l.prevRootHash1 = some l := hl
      rw [← hroot, h] at hl'
      exact Option.some.inj hl'
  · intro a ha b hb hroot hwin
    rw [hc, List.mem_append, List.mem_singleton] at ha hb
    rcases ha with ha | rfl
    · rcases hb with hb | rfl
      · exact hs.one a ha b hb hroot hwin
      · exact hopen a ha hroot hwin
    · rcases hb with hb | rfl
      · exact (hopen b hb hroot.symm hwin.symm).symm
      · rfl

/-! ## The parts of the handlers -/

variable (Γ : NodeCtx) (t : Clock)

/-- Running the code records at most `hb`. -/
def RunsRecord (hb : Option HeartBeatREQ) {α : Type} (m : Node α) : Prop := ∀ s, Records hb s (runNode m s).2

namespace RunsRecord

variable {hb : Option HeartBeatREQ} {α β : Type}

theorem pure (a : α) : RunsRecord hb (Pure.pure a : Node α) := fun s => .refl hb s

theorem of_calm {m : Node α} (h : RunsCalm m) : RunsRecord hb m := fun s => .of_calm (h s)

theorem bind {m : Node α} {k : α → Node β} (hm : RunsRecord hb m) (hk : ∀ a, RunsRecord hb (k a)) : RunsRecord hb (m >>= k) := by
  intro s
  have h := hm s
  rw [runNode_bind]
  rcases hr : runNode m s with ⟨e | a, u⟩ <;> rw [hr] at h
  · exact h
  · exact h.trans (hk a u)

theorem ite {c : Prop} [Decidable c] {m k : Node α} (hm : RunsRecord hb m) (hk : RunsRecord hb k) :
    RunsRecord hb (if c then m else k) := by
  split
  · exact hm
  · exact hk

theorem modify {f : NodeSt → NodeSt} (h : ∀ s, Records hb s (f s)) : RunsRecord hb (Node.modify f) := h

/-- A change of the other fields. -/
theorem modify_other {f : NodeSt → NodeSt} (hcli : ∀ s, (f s).cliLeaderInfo = s.cliLeaderInfo)
    (hsent : ∀ s, (f s).sent = s.sent) : RunsRecord hb (Node.modify f) :=
  modify fun s => .of_eq (hcli s) (hsent s)

theorem send {m : Sent} (h : m.confirmed? = none) : RunsRecord hb (Node.send m) := fun s => (Records.refl hb s).log h

theorem get_bind {k : NodeSt → Node β} (hk : ∀ s, RunsRecord hb (k s)) : RunsRecord hb (Node.get >>= k) :=
  (of_calm .get).bind hk

theorem working : RunsRecord hb (Grain.working t) := modify_other (fun _ => rfl) fun _ => rfl

theorem replyHeartBeatRSP (h : HeartBeatREQ) : RunsRecord hb (Grain.replyHeartBeatRSP Γ t h) :=
  (working t).bind fun _ => send rfl

theorem doSync (srcNode : String) : RunsRecord hb (Grain.doSync Γ srcNode) := by
  unfold Grain.doSync
  refine bind (modify_other (fun _ => rfl) fun _ => rfl) fun _ => bind (of_calm (.nodeIp _ _)) fun ip => ?_
  exact bind (modify_other (fun _ => rfl) fun _ => rfl) fun _ => get_bind fun _ => send rfl

theorem followRemote (remote : Option BlockAccepted2REQ) (srcNode : String) :
    RunsRecord hb (Grain.followRemote Γ remote srcNode) := by
  unfold Grain.followRemote
  exact bind (modify_other (fun _ => rfl) fun _ => rfl) fun _ => doSync Γ srcNode

/-- A recorded leader may be dropped, none is added. -/
theorem expire (s : NodeSt) (root : String) : Records hb s (s.expire t root) := by
  unfold NodeSt.expire
  split
  · exact .refl hb s
  · split
    · refine ⟨fun r l hl => ?_, rfl⟩
      rw [NodeSt.leader_setCli] at hl
      split at hl
      · nomatch hl
      · exact .inr hl
    · exact .refl hb s

theorem judge (h : HeartBeatREQ) (remote : Option BlockAccepted2REQ) : RunsRecord hb (Grain.judge Γ t h remote) := by
  refine (working t).bind fun _ => .ite (pure _) (.ite (pure _) (get_bind fun s => .ite (pure _) ?_))
  refine (modify fun s => expire t s _).bind fun _ => get_bind fun s => ?_
  refine (of_calm (.tree (.verifyBlockAll _))).bind fun rv => (of_calm (.tree (.verifyBlockAll _))).bind fun lv => ?_
  split
  · exact pure _
  · exact of_calm (.judgeFirst Γ t h)
  · exact pure _
  · exact of_calm (.judgeNext Γ t h _ _)
  · exact pure _

end RunsRecord

theorem startRound_records (s : NodeSt) (hb : HeartBeatREQ) (now : Int) : Records (some hb) s (s.startRound hb now) := by
  unfold NodeSt.startRound
  refine .setCli ?_ ?_ hb _ _ <;> rfl

/-- `do_heart_beat` records the node's own heartbeat, if there is no rival. -/
theorem doHeartBeat_records (s : NodeSt) (tnow : Int) :
    Records (if s.rival Γ tnow = none then some (s.ownHeartBeat Γ tnow) else none) s (runNode (doHeartBeat Γ t tnow) s).2 := by
  unfold doHeartBeat
  simp only [working, runNode_modify_bind, runNode_get_bind]
  set s₁ : NodeSt := { s with stageIsWorking := t.now }
  have hrival : s₁.rival Γ tnow = s.rival Γ tnow := rfl
  have hown : s₁.ownHeartBeat Γ tnow = s.ownHeartBeat Γ tnow := rfl
  have hs₁ : ∀ hb, Records hb s s₁ := fun hb => .of_eq rfl rfl
  rw [hrival]
  cases hr : s.rival Γ tnow with
  | some hb => exact hs₁ _
  | none =>
    simp only [if_true]
    have hcalm := RunsCalm.getMetaFull Γ tnow s₁
    rw [runNode_bind]
    rcases hm : runNode (getMetaFull Γ tnow) s₁ with ⟨e | mf, s₂⟩ <;> rw [hm] at hcalm
    · exact (hs₁ _).trans (.of_calm hcalm)
    · have hown₂ : s₂.ownHeartBeat Γ tnow = s₁.ownHeartBeat Γ tnow := by
        obtain ⟨y, m, rfl⟩ := hcalm
        rfl
      simp only [runNode_get_bind, runNode_modify_bind, runNode_send_bind, runNode_pure, hown₂, hown]
      exact (((hs₁ _).trans (.of_calm hcalm)).trans (startRound_records _ _ _)).log rfl

/-- A heartbeat that is taken over is recorded. -/
theorem adopt_records (s : NodeSt) (clear cert : Bool) (h : HeartBeatREQ) : Records (some h) s (s.adopt clear cert h) := by
  have hrec : Records (some h) s (NodeSt.record { s with lBlocks := if clear then ∅ else s.lBlocks } h) := by
    refine .setCli ?_ ?_ h _ _ <;> rfl
  unfold NodeSt.adopt
  cases cert with
  | false => exact hrec
  | true => exact hrec.trans (.of_eq rfl rfl)

/-! ## Steps and runs -/

variable {Γ t}

/-- `do_heart_beat` keeps the state settled if its heartbeat may be confirmed. -/
theorem Settled.doHeartBeat {s : NodeSt} (hs : Settled s) {tnow : Int} (h : s.OpenOwn Γ tnow) :
    Settled (runNode (Grain.doHeartBeat Γ t tnow) s).2 := by
  refine hs.records (fun l hl => ?_) (doHeartBeat_records Γ t s tnow)
  split at hl
  · next hr =>
    obtain rfl := Option.some.inj hl
    exact h hr
  · nomatch hl

/-- A handler that drops its result. -/
theorem runNode_discard {α : Type} (m : Node α) (s : NodeSt) :
    (runNode (m >>= fun _ => (pure () : Node Unit)) s).2 = (runNode m s).2 := by
  rw [runNode_bind]
  rcases runNode m s with ⟨_ | _, _⟩ <;> rfl

theorem Settled.heartBeatREQ {s : NodeSt} (hs : Settled s) (h : HeartBeatREQ) (remote : Option BlockAccepted2REQ)
    (srcNode : String) (hr : Respects Γ t s (.heartBeatREQ h remote srcNode)) :
    Settled (runNode (Grain.heartBeatREQ Γ t h remote srcNode) s).2 := by
  have hj : Records none s (runNode (judge Γ t h remote) s).2 := RunsRecord.judge Γ t h remote s
  unfold Grain.heartBeatREQ
  rw [runNode_bind]
  simp only [Respects] at hr
  rcases hv : runNode (judge Γ t h remote) s with ⟨e | v, s'⟩ <;> rw [hv] at hj hr
  · exact hs.records_none hj
  have hs' : Settled s' := hs.records_none hj
  have hnone : ∀ {m : Node Bool}, RunsRecord none m → Settled (runNode m s').2 :=
    fun hm => hs'.records_none (hm s')
  cases v with
  | reply => exact hnone ((RunsRecord.replyHeartBeatRSP Γ t h).bind fun _ => .pure _)
  | ignore forward => exact hnone (.pure _)
  | delay msg =>
    refine hnone ((RunsRecord.of_calm (.nodeIp _ _)).bind fun ip => .get_bind fun s => ?_)
    cases s.prevBlock with
    | none => exact (RunsRecord.pure _).bind fun _ => .pure _
    | some lc => exact (RunsRecord.send rfl).bind fun _ => .pure _
  | adopt clear cert =>
    have hopen : s'.Open h := by
      unfold NodeSt.Open
      rw [hj.confirmed]
      exact hr
    have hadopt : Settled (s'.adopt clear cert h) :=
      hs'.records (fun l hl => Option.some.inj hl ▸ hopen) (adopt_records s' clear cert h)
    have hreply : RunsRecord none (replyHeartBeatRSP Γ t h >>= fun _ => pure true) :=
      (RunsRecord.replyHeartBeatRSP Γ t h).bind fun _ => .pure true
    exact hadopt.records_none (hreply _)
  | promote forward =>
    have hd : Settled (runNode (Grain.doHeartBeat Γ t h.blockTimestamp) s').2 := hs'.doHeartBeat hr
    change Settled (runNode (Grain.doHeartBeat Γ t h.blockTimestamp >>= fun _ => pure forward) s').2
    rw [runNode_bind]
    rcases hd' : runNode (Grain.doHeartBeat Γ t h.blockTimestamp) s' with ⟨e | hb, s''⟩ <;> rw [hd'] at hd <;> exact hd
  | sync onlyIfEmpty =>
    refine hnone (.get_bind fun s => .ite ?_ ?_)
    · exact (RunsRecord.pure _).bind fun _ => .pure _
    · exact (RunsRecord.followRemote Γ remote srcNode).bind fun _ => .pure _

theorem Settled.confirmLeaderREQ {s : NodeSt} (hs : Settled s) (hb : HeartBeatREQ)
    (hr : Respects Γ t s (.confirmLeaderREQ hb)) : Settled (runNode (Grain.confirmLeaderREQ Γ t hb) s).2 := by
  unfold Grain.confirmLeaderREQ
  simp only [runNode_get_bind]
  split
  · exact hs
  simp only [working, runNode_modify_bind, runNode_get_bind]
  set s₁ : NodeSt := { s with stageIsWorking := t.now }
  have hs₁ : Settled s₁ := hs.records_none (.of_eq rfl rfl)
  split
  · exact hs₁
  next hroot =>
  have hroot : s.prevRootHashZ = hb.prevRootHash1 := not_not.1 hroot
  simp only [runNode_modify_bind, runNode_get_bind]
  -- after this the recorded leader is the one there was, or the heartbeat
  have hs₂ : Settled (s₁.recordIfNone hb) := by
    unfold NodeSt.recordIfNone
    cases hl : (s₁.cli hb.prevRootHash1).nodeLeader with
    | some l => exact hs₁
    | none =>
      refine hs₁.records (fun l hl' => ?_) (Records.setCli rfl rfl hb _ _)
      obtain rfl := Option.some.inj hl'
      exact hr hroot hl
  split
  · next hl => exact hs₂.confirm hl
  · exact hs₂

theorem Settled.putTransactionREQ {s : NodeSt} (hs : Settled s) (tx : TX) (hr : Respects Γ t s (.putTransactionREQ tx)) :
    Settled (runNode (Grain.putTransactionREQ Γ t tx) s).2 := by
  unfold Grain.putTransactionREQ
  simp only [runNode_modify_bind, runNode_get_bind]
  split
  · next hlate =>
    simp only [working, runNode_modify_bind, runNode_discard]
    refine Settled.doHeartBeat ?_ (hr hlate)
    exact hs.records_none (.of_eq rfl rfl)
  · exact hs.records_none (.of_eq rfl rfl)

/-- An event that respects what was confirmed keeps the state settled. -/
theorem Settled.step {s : NodeSt} (hs : Settled s) (e : Clock × ElectionEvent) (hr : Respects Γ e.1 s e.2) :
    Settled (electionStep Γ e s) := by
  obtain ⟨t, e⟩ := e
  cases e with
  | heartBeatREQ h remote srcNode =>
    unfold electionStep ElectionEvent.handler
    dsimp only
    rw [runNode_discard]
    exact hs.heartBeatREQ h remote srcNode hr
  | confirmLeaderREQ hb => exact hs.confirmLeaderREQ hb hr
  | putTransactionREQ tx => exact hs.putTransactionREQ tx hr

theorem Settled.run {s : NodeSt} (hs : Settled s) (es : List (Clock × ElectionEvent)) (hr : RespectsAll Γ es s) :
    Settled (electionRun Γ es s) := by
  induction es generalizing s with
  | nil => exact hs
  | cons e es ih => exact ih (hs.step e hr.1) hr.2

/-- A run from a state in which nothing was confirmed, all of whose events respect what was confirmed before them, confirms one
heartbeat for a root and a window. -/
theorem confirms_one_leader (Γ : NodeCtx) (s : NodeSt) (hs : s.confirmed = []) (es : List (Clock × ElectionEvent))
    (h : RespectsAll Γ es s) : (electionRun Γ es s).ConfirmsOne := by
  have hinit : Settled s := by
    refine ⟨fun l _ c hc => ?_, fun a ha => ?_⟩
    · rw [hs] at hc
      nomatch hc
    · rw [hs] at ha
      nomatch ha
  exact (hinit.run es h).one

/-! ## A node that confirms two leaders -/

namespace Sample

/-- Node `m` is confirmed, then the heartbeat of `n`, which stands before it, arrives in the same second. -/
def takeover : List (Clock × ElectionEvent) :=
  [(clock 5, .confirmLeaderREQ (heartBeat "m" 5)), (clock 5, .heartBeatREQ (heartBeat "n" 5) none "n"),
    (clock 5, .confirmLeaderREQ (heartBeat "n" 5))]

/-- Node `m` is elected and confirmed in one window, `n` in the next. -/
def succession : List (Clock × ElectionEvent) :=
  [(clock 5, .heartBeatREQ (heartBeat "m" 5) none "m"), (clock 5, .confirmLeaderREQ (heartBeat "m" 5)),
    (clock 15, .heartBeatREQ (heartBeat "n" 15) none "n"), (clock 15, .confirmLeaderREQ (heartBeat "n" 15))]

end Sample

open Sample in
/-- Node `o` confirms both. -/
theorem confirms_one_leader_false :
    nodeSt.confirmed = [] ∧ ¬ (electionRun (nodeCtx "o") takeover nodeSt).ConfirmsOne := by
  have h : (electionRun (nodeCtx "o") takeover nodeSt).confirmed = [heartBeat "m" 5, heartBeat "n" 5] := by decide +kernel
  refine ⟨by decide +kernel, fun hone => ?_⟩
  have heq : heartBeat "m" 5 = heartBeat "n" 5 := by
    refine hone _ ?_ _ ?_ rfl rfl <;> rw [h]
    · exact List.mem_cons_self
    · exact List.mem_cons_of_mem _ List.mem_cons_self
  revert heq
  decide

open Sample in
theorem confirms_one_leader_succession :
    (electionRun (nodeCtx "o") succession nodeSt).confirmed = [heartBeat "m" 5, heartBeat "n" 15] ∧
      (electionRun (nodeCtx "o") succession nodeSt).ConfirmsOne :=
  ⟨by decide +kernel, confirms_one_leader (nodeCtx "o") nodeSt (by decide +kernel) succession (by decide +kernel)⟩

end Grain
