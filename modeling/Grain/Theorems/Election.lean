import Grain.Lemmas.Meta
import Grain.Theorems.Confirm

/-!
# The election does not depend on the order of the heartbeats

Heartbeats for one root and one window that arrive in any order leave the same leader recorded: the node that comes first among
their senders and the node itself. The recorded leader is at every point the first of those seen so far, the node itself being
seen as soon as one of the heartbeats is not its own.
-/

namespace Grain

/-- A heartbeat as it arrives: with the clocks, and the node that passed it on. -/
structure Beat where
  clock : Clock
  hb : HeartBeatREQ
  srcNode : String

/-- The arrival of a heartbeat whose sender has the same previous block as the node. -/
def Beat.event (prev : Option BlockAccepted2REQ) (b : Beat) : Clock × ElectionEvent :=
  (b.clock, .heartBeatREQ b.hb prev b.srcNode)

/-- The state after heartbeats of senders that share the node's previous block. -/
def election (Γ : NodeCtx) (s : NodeSt) (bs : List Beat) : NodeSt := electionRun Γ (bs.map (Beat.event s.prevBlock)) s

/-- The start of an election: the node is not synchronising, it has neither recorded a leader nor sent a heartbeat in the
window, its previous block is checked and the metadata of the window computed without an exception, and the node has a position
in it. -/
structure Round (Γ : NodeCtx) (s : NodeSt) (win : Int) (m : BlockMetaFull) : Prop where
  synced : s.st.sync.empty = true
  fresh : s.leader s.prevRootHashZ = none
  notSent : (s.cli s.prevRootHashZ).heartBeatSent[win]? = none
  verified : ∃ v, (runEff Γ.ctx (verifyBlockAll Γ.ctx s.prevBlock) s.st).1 = .ok v
  metadata : s.HasMeta Γ win m
  apart : s.MetaApart
  ranked : m.Ranks Γ.thisNodeName

/-- The heartbeat is for the node's root and for the window, arrives in the window, and its sender has a position. -/
structure Beat.InRound (s : NodeSt) (win : Int) (m : BlockMetaFull) (b : Beat) : Prop where
  root : b.hb.prevRootHash1 = s.prevRootHashZ
  inWindow : b.hb.window = win
  clock : window b.clock.time = win
  late : oneSec < b.clock.now
  ranked : m.Ranks b.hb.nodeLeader

/-! ## One heartbeat -/

/-- What the election leaves as it is at its start. -/
structure Electing (Γ : NodeCtx) (s : NodeSt) (win : Int) (m : BlockMetaFull) (u : NodeSt) : Prop where
  store : u.st.store = s.st.store
  synced : u.st.sync.empty = true
  prev : u.prevBlock = s.prevBlock
  metadata : u.HasMeta Γ win m

section Step

variable {Γ : NodeCtx} {s u : NodeSt} {win : Int} {m : BlockMetaFull} {b : Beat}

theorem Electing.root (h : Electing Γ s win m u) : u.prevRootHashZ = s.prevRootHashZ := by
  unfold NodeSt.prevRootHashZ
  rw [h.prev]

/-- A change of the fields that `getMetaFull` does not read. -/
theorem Electing.congr (h : Electing Γ s win m u) {u' : NodeSt} (hst : u'.st = u.st) (hprev : u'.prevBlock = u.prevBlock)
    (hcache : u'.blockMetaFull = u.blockMetaFull) : Electing Γ s win m u' where
  store := by rw [hst, h.store]
  synced := by rw [hst, h.synced]
  prev := hprev.trans h.prev
  metadata := h.metadata.congr (by rw [hst]) hprev hcache

/-- The metadata of a time in the window. -/
theorem Electing.getMetaFull (h : Electing Γ s win m u) {ti : Int} (hti : window ti = win) :
    ∃ mm, runNode (Grain.getMetaFull Γ ti) u = (.ok m, { u with blockMetaFull := mm }) ∧
      Electing Γ s win m { u with blockMetaFull := mm } := by
  obtain ⟨mm, hrun, hmeta⟩ := h.metadata.getMetaFull hti
  exact ⟨mm, hrun, h.store, h.synced, h.prev, hmeta⟩

/-- The leader recorded so far, if there is one, is of the window and has a position; if there is none, no own heartbeat was
sent. -/
structure Recorded (s : NodeSt) (win : Int) (m : BlockMetaFull) (u : NodeSt) : Prop where
  leader : ∀ l, u.leader s.prevRootHashZ = some l → l.window = win ∧ m.Ranks l.nodeLeader
  notSent : u.leader s.prevRootHashZ = none → (u.cli s.prevRootHashZ).heartBeatSent[win]? = none

/-- The verdict that the order of the nodes asks for: without a recorded leader the node itself is put forward or the sender
recorded; otherwise the one that comes first stays or is recorded. -/
def Chooses (Γ : NodeCtx) (m : BlockMetaFull) (n : String) : Option HeartBeatREQ → Verdict → Prop
  | none, v => (m.position Γ.thisNodeName < m.position n ∧ ∃ f, v = .promote f) ∨
      (m.position n ≤ m.position Γ.thisNodeName ∧ ∃ a c, v = .adopt a c)
  | some l, v => (m.position l.nodeLeader ≤ m.position n ∧ ∃ f, v = .ignore f) ∨
      (m.position n ≤ m.position l.nodeLeader ∧ ∃ a c, v = .adopt a c)

/-- The timeout is over if nothing was sent. -/
theorem mayPromote_of_notSent (hb : b.InRound s win m) {c : ClientLeaderInfo} (h : c.heartBeatSent[win]? = none) :
    c.mayPromote b.clock b.hb = true := by
  have hlate := hb.late
  unfold ClientLeaderInfo.mayPromote
  rw [hb.inWindow, h]
  refine decide_eq_true ?_
  change b.clock.now - 0 > oneSec * 1
  omega

/-- A comparison of two nodes that have positions, inside a handler. -/
theorem runNode_isNodeGreater {α : Type} {x y : String} (hx : m.Ranks x) (hy : m.Ranks y) (k : Bool → Node α) (u : NodeSt) :
    runNode (Prog.ofExcept (isNodeGreater x y m) >>= k) u = runNode (k (m.position x < m.position y)) u := by
  rw [isNodeGreater_eq hx hy]
  rfl

theorem judgeFirst_round (hr : Round Γ s win m) (hu : Electing Γ s win m u) (hrec : Recorded s win m u)
    (hb : b.InRound s win m) :
    ∃ v mm, runNode (judgeFirst Γ b.clock b.hb) u = (.ok v, { u with blockMetaFull := mm }) ∧
      Electing Γ s win m { u with blockMetaFull := mm } ∧ Chooses Γ m b.hb.nodeLeader (u.leader s.prevRootHashZ) v := by
  obtain ⟨mm, hmeta, hu'⟩ := hu.getMetaFull (show window b.hb.blockTimestamp = win from hb.inWindow)
  unfold judgeFirst
  rw [runNode_bind_ok hmeta, runNode_get_bind, hb.root]
  have hcli : (({ u with blockMetaFull := mm } : NodeSt).cli s.prevRootHashZ) = u.cli s.prevRootHashZ := rfl
  rw [hcli]
  cases hl : (u.cli s.prevRootHashZ).nodeLeader with
  | some l =>
    obtain ⟨-, hrank⟩ := hrec.leader l hl
    dsimp only
    rw [runNode_isNodeGreater hrank hb.ranked]
    have hl' : u.leader s.prevRootHashZ = some l := hl
    rw [hl']
    by_cases hlt : m.position l.nodeLeader < m.position b.hb.nodeLeader
    · exact ⟨.ignore false, mm, by simp [hlt], hu', .inl ⟨by omega, _, rfl⟩⟩
    · exact ⟨.adopt false false, mm, by simp [hlt], hu', .inr ⟨by omega, _, _, rfl⟩⟩
  | none =>
    dsimp only
    rw [runNode_isNodeGreater hr.ranked hb.ranked, mayPromote_of_notSent hb (hrec.notSent hl)]
    have hl' : u.leader s.prevRootHashZ = none := hl
    rw [hl']
    by_cases hlt : m.position Γ.thisNodeName < m.position b.hb.nodeLeader
    · exact ⟨.promote false, mm, by simp [hlt], hu', .inl ⟨hlt, _, rfl⟩⟩
    · exact ⟨.adopt false true, mm, by simp [hlt], hu', .inr ⟨by omega, _, _, rfl⟩⟩

theorem judgeSame_round (hr : Round Γ s win m) (hu : Electing Γ s win m u) (hrec : Recorded s win m u)
    (hb : b.InRound s win m) (prev : BlockAccepted2REQ) :
    ∃ v mm, runNode (judgeSame Γ b.clock b.hb prev prev) u = (.ok v, { u with blockMetaFull := mm }) ∧
      Electing Γ s win m { u with blockMetaFull := mm } ∧ Chooses Γ m b.hb.nodeLeader (u.leader s.prevRootHashZ) v := by
  obtain ⟨mm, hmeta, hu'⟩ := hu.getMetaFull (show window b.hb.blockTimestamp = win from hb.inWindow)
  unfold judgeSame
  rw [runNode_get_bind, if_neg (by simp), if_neg (by rw [hu.root, hb.root]; simp), hb.root]
  cases hl : (u.cli s.prevRootHashZ).nodeLeader with
  | some l =>
    obtain ⟨hwin, hrank⟩ := hrec.leader l hl
    dsimp only
    rw [if_pos (hwin.trans hb.inWindow.symm), runNode_bind_ok hmeta, runNode_isNodeGreater hb.ranked hrank]
    have hl' : u.leader s.prevRootHashZ = some l := hl
    rw [hl']
    by_cases hlt : m.position b.hb.nodeLeader < m.position l.nodeLeader
    · exact ⟨.adopt true false, mm, by simp [hlt], hu', .inr ⟨by omega, _, _, rfl⟩⟩
    · exact ⟨.ignore false, mm, by simp [hlt], hu', .inl ⟨by omega, _, rfl⟩⟩
  | none =>
    dsimp only
    rw [runNode_bind_ok hmeta, runNode_isNodeGreater hr.ranked hb.ranked, mayPromote_of_notSent hb (hrec.notSent hl)]
    have hl' : u.leader s.prevRootHashZ = none := hl
    rw [hl']
    by_cases hlt : m.position Γ.thisNodeName < m.position b.hb.nodeLeader
    · exact ⟨.promote true, mm, by simp [hlt], hu', .inl ⟨hlt, _, rfl⟩⟩
    · exact ⟨.adopt false false, mm, by simp [hlt], hu', .inr ⟨by omega, _, _, rfl⟩⟩

/-- A leader of the current window is not dropped. -/
theorem expire_eq (hrec : Recorded s win m u) (hb : b.InRound s win m) : u.expire b.clock s.prevRootHashZ = u := by
  unfold NodeSt.expire
  cases hl : (u.cli s.prevRootHashZ).nodeLeader with
  | none => rfl
  | some l =>
    obtain ⟨hwin, -⟩ := hrec.leader l hl
    dsimp only
    rw [if_neg]
    rw [hwin, hb.clock]
    omega

theorem judge_round (hr : Round Γ s win m) (hu : Electing Γ s win m u) (hrec : Recorded s win m u) (hb : b.InRound s win m)
    (hne : b.hb.nodeLeader ≠ Γ.thisNodeName) :
    ∃ v u', runNode (judge Γ b.clock b.hb s.prevBlock) u = (.ok v, u') ∧ Electing Γ s win m u' ∧
      u'.cliLeaderInfo = u.cliLeaderInfo ∧ Chooses Γ m b.hb.nodeLeader (u.leader s.prevRootHashZ) v := by
  set u₁ : NodeSt := { u with stageIsWorking := b.clock.now } with hu₁
  have he : Electing Γ s win m u₁ := hu.congr rfl rfl rfl
  have hrec₁ : Recorded s win m u₁ := ⟨hrec.leader, hrec.notSent⟩
  obtain ⟨v, hv⟩ := hr.verified
  have hverify : runNode (Node.tree Γ.ctx (verifyBlockAll Γ.ctx s.prevBlock)) u₁ = (.ok v, u₁) := by
    refine runNode_tree_ok (.verifyBlockAll _) ?_
    rw [(Reads.verifyBlockAll _).result_eq he.store]
    exact hv
  have hwin : ¬ (b.hb.window < window b.clock.time - 1 ∨ b.hb.window > window b.clock.time + 1) := by
    rw [hb.inWindow, hb.clock]
    omega
  unfold judge working
  rw [runNode_modify_bind, if_neg hne, if_neg hwin, runNode_get_bind, if_neg (by simp [hu.synced]), runNode_modify_bind, hb.root]
  change ∃ v u', runNode _ (u₁.expire b.clock s.prevRootHashZ) = _ ∧ _
  rw [expire_eq hrec₁ hb, runNode_get_bind, he.prev, runNode_bind_ok hverify, runNode_bind_ok hverify]
  cases v with
  | false =>
    obtain ⟨v, mm, hrun, he', hch⟩ := judgeFirst_round hr he hrec₁ hb
    exact ⟨v, _, hrun, he', rfl, hch⟩
  | true =>
    cases hp : s.prevBlock with
    | none =>
      rw [hp] at hv
      nomatch hv
    | some prev =>
      obtain ⟨v, mm, hrun, he', hch⟩ := judgeSame_round hr he hrec₁ hb prev
      refine ⟨v, _, ?_, he', rfl, hch⟩
      dsimp only
      unfold judgeNext
      rw [if_neg (by omega), if_neg (by omega)]
      exact hrun

/-- The leader recorded for the root is a heartbeat of node `n` in the window. -/
def Leads (s : NodeSt) (win : Int) (u : NodeSt) (n : String) : Prop :=
  ∃ l, u.leader s.prevRootHashZ = some l ∧ l.window = win ∧ l.nodeLeader = n

/-- A heartbeat that is taken over leads. -/
theorem adopt_leads (hb : b.InRound s win m) (clear cert : Bool) : Leads s win (u.adopt clear cert b.hb) b.hb.nodeLeader := by
  refine ⟨b.hb, ?_, hb.inWindow, rfl⟩
  have hcli : (u.adopt clear cert b.hb).cliLeaderInfo = u.cliLeaderInfo.insert b.hb.prevRootHash1 { nodeLeader := some b.hb } := by
    unfold NodeSt.adopt
    cases cert <;> rfl
  unfold NodeSt.leader NodeSt.cli
  rw [hcli, hb.root]
  simp

theorem adopt_electing (hu : Electing Γ s win m u) (clear cert : Bool) (h : HeartBeatREQ) :
    Electing Γ s win m (u.adopt clear cert h) := by
  unfold NodeSt.adopt
  cases cert <;> exact hu.congr rfl rfl rfl

/-- A node that puts itself forward leads. -/
theorem doHeartBeat_leads (hu : Electing Γ s win m u) (hnone : u.leader s.prevRootHashZ = none) (t : Clock) {tnow : Int}
    (hwin : window tnow = win) :
    Electing Γ s win m (runNode (doHeartBeat Γ t tnow) u).2 ∧ Leads s win (runNode (doHeartBeat Γ t tnow) u).2 Γ.thisNodeName := by
  set u₁ : NodeSt := { u with stageIsWorking := t.now } with hu₁
  have he : Electing Γ s win m u₁ := hu.congr rfl rfl rfl
  obtain ⟨mm, hmeta, he'⟩ := he.getMetaFull hwin
  have hrival : u₁.rival Γ tnow = none := by
    unfold NodeSt.rival
    rw [he.root]
    have hcli : (u₁.cli s.prevRootHashZ).nodeLeader = none := hnone
    rw [hcli]
    rfl
  unfold doHeartBeat working
  rw [runNode_modify_bind, runNode_get_bind]
  rw [← hu₁]
  dsimp only
  rw [hrival]
  dsimp only
  rw [runNode_bind_ok hmeta, runNode_get_bind, runNode_modify_bind, runNode_send_bind, runNode_pure]
  refine ⟨he'.congr rfl rfl rfl, ?_⟩
  set u₂ : NodeSt := { u₁ with blockMetaFull := mm }
  refine ⟨u₂.ownHeartBeat Γ tnow, ?_, hwin, rfl⟩
  have hlead : (u₂.startRound (u₂.ownHeartBeat Γ tnow) t.now).leader u₂.prevRootHashZ = some (u₂.ownHeartBeat Γ tnow) := by
    unfold NodeSt.startRound
    rw [NodeSt.leader_setCli, if_pos rfl]
  rw [← he'.root]
  exact hlead

/-- One heartbeat of another node: the leader afterwards is the one there was, or the sender, and comes before both. -/
theorem step_other (hr : Round Γ s win m) (hu : Electing Γ s win m u) (hrec : Recorded s win m u) (hb : b.InRound s win m)
    (hne : b.hb.nodeLeader ≠ Γ.thisNodeName) :
    let old := ((u.leader s.prevRootHashZ).map (·.nodeLeader)).getD Γ.thisNodeName
    let u' := electionStep Γ (b.event s.prevBlock) u
    Electing Γ s win m u' ∧ ∃ n, Leads s win u' n ∧ (n = old ∨ n = b.hb.nodeLeader) ∧
      m.position n ≤ m.position old ∧ m.position n ≤ m.position b.hb.nodeLeader := by
  intro old u'
  obtain ⟨v, u₁, hrun, he, hcli, hch⟩ := judge_round hr hu hrec hb hne
  have hlead : ∀ r, u₁.leader r = u.leader r := by
    intro r
    unfold NodeSt.leader NodeSt.cli
    rw [hcli]
  have hu' : u' = (runNode (carryOut Γ b.clock b.hb s.prevBlock b.srcNode v) u₁).2 := by
    change (runNode (heartBeatREQ Γ b.clock b.hb s.prevBlock b.srcNode >>= fun _ => pure ()) u).2 = _
    rw [runNode_discard]
    unfold heartBeatREQ
    rw [runNode_bind_ok hrun]
  have hadopt : ∀ a c, v = .adopt a c → Electing Γ s win m u' ∧ Leads s win u' b.hb.nodeLeader := by
    rintro a c rfl
    rw [hu']
    exact ⟨(adopt_electing he a c b.hb).congr rfl rfl rfl, adopt_leads hb a c⟩
  cases hl : u.leader s.prevRootHashZ with
  | none =>
    have hold : old = Γ.thisNodeName := by simp [old, hl]
    rw [hl] at hch
    rcases hch with ⟨hlt, f, rfl⟩ | ⟨hle, a, c, rfl⟩
    · obtain ⟨he', hl'⟩ := doHeartBeat_leads he ((hlead _).trans hl) b.clock hb.inWindow
      have hu'' : u' = (runNode (doHeartBeat Γ b.clock b.hb.blockTimestamp) u₁).2 := by
        rw [hu']
        change (runNode (doHeartBeat Γ b.clock b.hb.blockTimestamp >>= fun _ => pure f) u₁).2 = _
        rw [runNode_bind]
        rcases runNode (doHeartBeat Γ b.clock b.hb.blockTimestamp) u₁ with ⟨_ | _, _⟩ <;> rfl
      rw [hu'']
      exact ⟨he', Γ.thisNodeName, hl', .inl hold.symm, by rw [hold], by omega⟩
    · obtain ⟨he', hl'⟩ := hadopt a c rfl
      exact ⟨he', b.hb.nodeLeader, hl', .inr rfl, by rw [hold]; exact hle, le_refl _⟩
  | some l =>
    have hold : old = l.nodeLeader := by simp [old, hl]
    rw [hl] at hch
    rcases hch with ⟨hle, f, rfl⟩ | ⟨hle, a, c, rfl⟩
    · rw [hu']
      refine ⟨he, l.nodeLeader, ⟨l, (hlead _).trans hl, (hrec.leader l hl).1, rfl⟩, .inl hold.symm, by rw [hold], hle⟩
    · obtain ⟨he', hl'⟩ := hadopt a c rfl
      exact ⟨he', b.hb.nodeLeader, hl', .inr rfl, by rw [hold]; exact hle, le_refl _⟩

/-- A heartbeat of the node itself changes nothing of the election. -/
theorem step_own (hu : Electing Γ s win m u) (hown : b.hb.nodeLeader = Γ.thisNodeName) :
    Electing Γ s win m (electionStep Γ (b.event s.prevBlock) u) ∧
      (electionStep Γ (b.event s.prevBlock) u).cliLeaderInfo = u.cliLeaderInfo := by
  have hstep : electionStep Γ (b.event s.prevBlock) u =
      NodeSt.log { u with stageIsWorking := b.clock.now }
        (.heartBeatRSP { payloadHeartBeat := b.hb, nodeSigner := Γ.thisNodeName }) := by
    change (runNode (heartBeatREQ Γ b.clock b.hb s.prevBlock b.srcNode >>= fun _ => pure ()) u).2 = _
    rw [runNode_discard]
    unfold heartBeatREQ judge working
    rw [runNode_bind, runNode_modify_bind, if_pos hown]
    rfl
  rw [hstep]
  exact ⟨hu.congr rfl rfl rfl, rfl⟩

/-! ## A run -/

/-- Where the election is after heartbeats of `seen`: no leader if they are all the node's own, else the first of them and the
node itself. -/
def Best (Γ : NodeCtx) (s : NodeSt) (win : Int) (m : BlockMetaFull) (u : NodeSt) (seen : List String) : Prop :=
  (u.leader s.prevRootHashZ = none ∧ (u.cli s.prevRootHashZ).heartBeatSent[win]? = none ∧ ∀ x ∈ seen, x = Γ.thisNodeName) ∨
    ∃ n, Leads s win u n ∧ n ∈ Γ.thisNodeName :: seen ∧ ∀ x ∈ Γ.thisNodeName :: seen, m.position n ≤ m.position x

theorem Best.recorded {seen : List String} (h : Best Γ s win m u seen) (hr : Round Γ s win m) (hseen : ∀ x ∈ seen, m.Ranks x) :
    Recorded s win m u := by
  rcases h with ⟨hnone, hsent, -⟩ | ⟨n, ⟨l, hl, hwin, rfl⟩, hn, -⟩
  · refine ⟨fun l hl => ?_, fun _ => hsent⟩
    rw [hnone] at hl
    nomatch hl
  · refine ⟨fun l' hl' => ?_, fun hnone => ?_⟩
    · rw [hl] at hl'
      obtain rfl := Option.some.inj hl'
      refine ⟨hwin, ?_⟩
      rcases List.mem_cons.1 hn with hn | hn
      · rw [hn]
        exact hr.ranked
      · exact hseen _ hn
    · rw [hl] at hnone
      nomatch hnone

/-- What was seen so far and one more heartbeat. -/
theorem Best.step {seen : List String} (h : Best Γ s win m u seen) (hr : Round Γ s win m) (hu : Electing Γ s win m u)
    (hseen : ∀ x ∈ seen, m.Ranks x) (hb : b.InRound s win m) :
    Electing Γ s win m (electionStep Γ (b.event s.prevBlock) u) ∧
      Best Γ s win m (electionStep Γ (b.event s.prevBlock) u) (b.hb.nodeLeader :: seen) := by
  by_cases hown : b.hb.nodeLeader = Γ.thisNodeName
  · obtain ⟨he, hcli⟩ := step_own hu hown
    have hlead : (electionStep Γ (b.event s.prevBlock) u).leader s.prevRootHashZ = u.leader s.prevRootHashZ := by
      unfold NodeSt.leader NodeSt.cli
      rw [hcli]
    refine ⟨he, ?_⟩
    rcases h with ⟨hnone, hsent, hall⟩ | ⟨n, ⟨l, hl, hwin, hln⟩, hn, hmin⟩
    · refine .inl ⟨hlead.trans hnone, ?_, ?_⟩
      · unfold NodeSt.cli at hsent ⊢
        rw [hcli]
        exact hsent
      · intro x hx
        rcases List.mem_cons.1 hx with rfl | hx
        · exact hown
        · exact hall x hx
    · refine .inr ⟨n, ⟨l, hlead.trans hl, hwin, hln⟩, ?_, ?_⟩
      · rcases List.mem_cons.1 hn with rfl | hn
        · exact List.mem_cons_self
        · exact List.mem_cons_of_mem _ (List.mem_cons_of_mem _ hn)
      · intro x hx
        rw [hown, List.mem_cons, List.mem_cons] at hx
        rcases hx with rfl | rfl | hx
        · exact hmin _ List.mem_cons_self
        · exact hmin _ List.mem_cons_self
        · exact hmin x (List.mem_cons_of_mem _ hx)
  · obtain ⟨he, n, hleads, hn, hold, hnew⟩ := step_other hr hu (h.recorded hr hseen) hb hown
    refine ⟨he, .inr ⟨n, hleads, ?_⟩⟩
    set old := ((u.leader s.prevRootHashZ).map (·.nodeLeader)).getD Γ.thisNodeName with hdef
    -- the one there was came before all that were seen
    have hbest : old ∈ Γ.thisNodeName :: seen ∧ ∀ x ∈ Γ.thisNodeName :: seen, m.position old ≤ m.position x := by
      rcases h with ⟨hnone, -, hall⟩ | ⟨n', ⟨l, hl, -, hln⟩, hn', hmin⟩
      · have hself : old = Γ.thisNodeName := by rw [hdef, hnone]; rfl
        rw [hself]
        refine ⟨List.mem_cons_self, fun x hx => ?_⟩
        rcases List.mem_cons.1 hx with rfl | hx
        · exact le_refl _
        · rw [hall x hx]
      · have hself : old = n' := by rw [hdef, hl, ← hln]; rfl
        rw [hself]
        exact ⟨hn', hmin⟩
    refine ⟨?_, fun x hx => ?_⟩
    · rcases hn with rfl | rfl
      · rcases List.mem_cons.1 hbest.1 with h | h
        · rw [h]
          exact List.mem_cons_self
        · exact List.mem_cons_of_mem _ (List.mem_cons_of_mem _ h)
      · exact List.mem_cons_of_mem _ List.mem_cons_self
    · rw [List.mem_cons, List.mem_cons] at hx
      rcases hx with rfl | rfl | hx
      · exact hold.trans (hbest.2 _ List.mem_cons_self)
      · exact hnew
      · exact hold.trans (hbest.2 x (List.mem_cons_of_mem _ hx))

/-- The heartbeats of a run, one after the other. -/
theorem Best.run {seen : List String} (h : Best Γ s win m u seen) (hr : Round Γ s win m) (hu : Electing Γ s win m u)
    (hseen : ∀ x ∈ seen, m.Ranks x) (bs : List Beat) (hbs : ∀ b ∈ bs, b.InRound s win m) :
    Best Γ s win m (electionRun Γ (bs.map (Beat.event s.prevBlock)) u) ((bs.map (·.hb.nodeLeader)).reverse ++ seen) := by
  induction bs generalizing u seen with
  | nil => exact h
  | cons b bs ih =>
    obtain ⟨he, hbest⟩ := h.step hr hu hseen (hbs b List.mem_cons_self)
    have hseen' : ∀ x ∈ b.hb.nodeLeader :: seen, m.Ranks x := by
      intro x hx
      rcases List.mem_cons.1 hx with rfl | hx
      · exact (hbs b List.mem_cons_self).ranked
      · exact hseen x hx
    have hfinal := ih hbest he hseen' fun b' hb' => hbs b' (List.mem_cons_of_mem b hb')
    rw [List.map_cons, List.map_cons, List.reverse_cons, List.append_assoc]
    exact hfinal

end Step

/-- Whatever the order in which heartbeats of one round arrive, if one of them is from another node, the recorded leader is the
first of their senders and the node itself. -/
theorem elects_first (Γ : NodeCtx) (s : NodeSt) (win : Int) (m : BlockMetaFull) (hr : Round Γ s win m) (bs : List Beat)
    (hbs : ∀ b ∈ bs, b.InRound s win m) (hother : ∃ b ∈ bs, b.hb.nodeLeader ≠ Γ.thisNodeName) :
    ∃ first ∈ Γ.thisNodeName :: bs.map (·.hb.nodeLeader),
      (∀ n ∈ Γ.thisNodeName :: bs.map (·.hb.nodeLeader), m.position first ≤ m.position n) ∧
      ∀ bs' : List Beat, bs'.Perm bs → ((election Γ s bs').leader s.prevRootHashZ).map (·.nodeLeader) = some first := by
  have hu : Electing Γ s win m s := ⟨rfl, hr.synced, rfl, hr.metadata⟩
  have hstart : Best Γ s win m s [] := .inl ⟨hr.fresh, hr.notSent, fun x hx => nomatch hx⟩
  have hnames : ∀ bs' : List Beat, bs'.Perm bs → ∀ x,
      x ∈ Γ.thisNodeName :: ((bs'.map (·.hb.nodeLeader)).reverse ++ []) ↔ x ∈ Γ.thisNodeName :: bs.map (·.hb.nodeLeader) := by
    intro bs' hperm x
    simp [List.mem_cons, (hperm.map _).mem_iff]
  -- every order ends with a leader that comes before all the others
  have hrun : ∀ bs' : List Beat, bs'.Perm bs → ∃ n, Leads s win (election Γ s bs') n ∧
      n ∈ Γ.thisNodeName :: bs.map (·.hb.nodeLeader) ∧
      ∀ x ∈ Γ.thisNodeName :: bs.map (·.hb.nodeLeader), m.position n ≤ m.position x := by
    intro bs' hperm
    have hbest := hstart.run hr hu (fun x hx => nomatch hx) bs' fun b hb => hbs b (hperm.mem_iff.1 hb)
    rcases hbest with ⟨-, -, hall⟩ | ⟨n, hl, hn, hmin⟩
    · obtain ⟨b, hb, hne⟩ := hother
      refine absurd (hall b.hb.nodeLeader ?_) hne
      rw [List.append_nil, List.mem_reverse]
      exact List.mem_map_of_mem (hperm.mem_iff.2 hb)
    · exact ⟨n, hl, (hnames bs' hperm n).1 hn, fun x hx => hmin x ((hnames bs' hperm x).2 hx)⟩
  have hranks : ∀ x ∈ Γ.thisNodeName :: bs.map (·.hb.nodeLeader), m.Ranks x := by
    intro x hx
    rcases List.mem_cons.1 hx with rfl | hx
    · exact hr.ranked
    · obtain ⟨b, hb, rfl⟩ := List.mem_map.1 hx
      exact (hbs b hb).ranked
  obtain ⟨first, -, hmem, hmin⟩ := hrun bs (List.Perm.refl bs)
  refine ⟨first, hmem, hmin, fun bs' hperm => ?_⟩
  obtain ⟨n, ⟨l, hl, -, rfl⟩, hn, hmin'⟩ := hrun bs' hperm
  have heq : l.nodeLeader = first :=
    (hr.metadata.apart hr.apart).eq_of_position (hranks _ hn) (hranks _ hmem) (le_antisymm (hmin' _ hmem) (hmin _ hn))
  rw [hl, ← heq]
  rfl

/-! ## Elections that fail -/

namespace Sample

/-- The heartbeat of a node in the first window, passed on by the node itself. -/
def beat (n : String) : Beat := { clock := clock 5, hb := heartBeat n 5, srcNode := n }

/-- The network, with all of its nodes in the committee. -/
def crowded : NodeSt where
  st := genesis (nodeCtx "").ctx { nodeFile with params := [("validator_count_percent", 100)] }

/-- The metadata of the first window. -/
def firstMeta : BlockMetaFull := (runNode (computeMeta (nodeCtx "o") "" 0) nodeSt).1.toOption.getD {}

end Sample

open Sample in
/-- The node's own heartbeat is not recorded when it comes back to it. And where the choice of the committee raises, the first
heartbeat to arrive is lost: the entry that the failed computation has left in the cache serves the second. -/
theorem elects_first_false :
    (election (nodeCtx "o") nodeSt [beat "o"]).leader "" = none ∧
      ((election (nodeCtx "o") crowded [beat "m", beat "n"]).leader "").map (·.nodeLeader) = some "n" ∧
      ((election (nodeCtx "o") crowded [beat "n", beat "m"]).leader "").map (·.nodeLeader) = some "m" := by
  decide +kernel

open Sample in
theorem elects_first_sample :
    ∃ first ∈ ["o", "m", "n"], (∀ n ∈ ["o", "m", "n"], firstMeta.position first ≤ firstMeta.position n) ∧
      ∀ bs' : List Beat, bs'.Perm [beat "m", beat "n"] →
        ((election (nodeCtx "o") nodeSt bs').leader "").map (·.nodeLeader) = some first := by
  have hmeta : (runNode (computeMeta (nodeCtx "o") "" 0) nodeSt).1.isOk = true := by decide +kernel
  have hr : Round (nodeCtx "o") nodeSt 0 firstMeta := by
    refine ⟨by decide +kernel, rfl, rfl, ⟨false, rfl⟩, .inr ⟨rfl, ?_⟩, ?_, by decide +kernel⟩
    case refine_2 =>
      intro root win m h
      simp [NodeSt.metaAt, nodeSt] at h
    unfold firstMeta
    cases h : (runNode (computeMeta (nodeCtx "o") "" 0) nodeSt).1 with
    | error e =>
      rw [h] at hmeta
      nomatch hmeta
    | ok m => exact h
  have hb : ∀ n, firstMeta.Ranks n → (beat n).InRound nodeSt 0 firstMeta := by
    intro n hn
    exact ⟨rfl, rfl, rfl, (by decide : oneSec < (clock 5).now), hn⟩
  refine elects_first (nodeCtx "o") nodeSt 0 firstMeta hr [beat "m", beat "n"] ?_ ⟨beat "m", List.mem_cons_self, by decide⟩
  intro b h
  rcases List.mem_cons.1 h with rfl | h
  · exact hb "m" (by decide +kernel)
  · obtain rfl := List.mem_singleton.1 h
    exact hb "n" (by decide +kernel)

end Grain
