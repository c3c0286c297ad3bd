import Grain.Lemmas.Reads
import Grain.Service

/-!
# What handlers do to a round

Most of what a handler does leaves the fields of the protocol alone: the tables, the recorded leaders, the two blocks and the log
of messages. For a relation of states that allows this, where a handler leads is put together from its few other changes.
-/

namespace Grain

open Prog

variable {α β : Type}

/-- The fields of the protocol are the same. -/
structure SameRound (s t : NodeSt) : Prop where
  lBlocks : t.lBlocks = s.lBlocks
  cliLeaderInfo : t.cliLeaderInfo = s.cliLeaderInfo
  prevBlock : t.prevBlock = s.prevBlock
  lastBlock : t.lastBlock = s.lastBlock
  sent : t.sent = s.sent

theorem Calm.sameRound {s t : NodeSt} (h : Calm s t) : SameRound s t := by
  obtain ⟨y, m, rfl⟩ := h
  exact ⟨rfl, rfl, rfl, rfl, rfl⟩

/-- A relation that allows changes of the tree, of the time of the last message and of the metadata in the cache. -/
class IsQuiet (R : NodeSt → NodeSt → Prop) : Prop extends IsPreorder NodeSt R where
  quiet : ∀ s st y m, R s { s with st := st, stageIsWorking := y, blockMetaFull := m }

/-- A relation that allows changes of the other fields. -/
class IsRound (R : NodeSt → NodeSt → Prop) : Prop extends IsPreorder NodeSt R where
  same : ∀ s t, SameRound s t → R s t

instance (R : NodeSt → NodeSt → Prop) [IsRound R] : IsQuiet R where
  quiet _ _ _ _ := IsRound.same _ _ ⟨rfl, rfl, rfl, rfl, rfl⟩

instance : IsRound SameRound where
  refl _ := ⟨rfl, rfl, rfl, rfl, rfl⟩
  trans _ _ _ h h' := ⟨h'.lBlocks.trans h.lBlocks, h'.cliLeaderInfo.trans h.cliLeaderInfo, h'.prevBlock.trans h.prevBlock,
    h'.lastBlock.trans h.lastBlock, h'.sent.trans h.sent⟩
  same _ _ h := h

/-! ## The parts of a handler -/

section Parts

variable {R : NodeSt → NodeSt → Prop} {s : NodeSt}

theorem moves_modify {f : NodeSt → NodeSt} (h : R s (f s)) : Moves nodeExec R (Node.modify f) s := h

theorem moves_other [IsRound R] {f : NodeSt → NodeSt} (h : ∀ s, SameRound s (f s)) : Moves nodeExec R (Node.modify f) s :=
  IsRound.same _ _ (h s)

theorem moves_get_bind {k : NodeSt → Node β} (h : Moves nodeExec R (k s) s) : Moves nodeExec R (Node.get >>= k) s := h

variable [IsQuiet R]

theorem moves_calm {m : Node α} (h : RunsCalm m) : Moves nodeExec R m s := by
  obtain ⟨y, mm, hs⟩ := h s
  change R s (runNode m s).2
  rw [hs]
  exact IsQuiet.quiet s _ _ mm

theorem moves_tree {Γ : Ctx} (m : Eff α) : Moves nodeExec R (Node.tree Γ m) s := by
  change R s (runNode (Node.tree Γ m) s).2
  rw [runNode_tree]
  exact IsQuiet.quiet s _ s.stageIsWorking s.blockMetaFull

theorem moves_working (t : Clock) : Moves nodeExec R (working t) s := IsQuiet.quiet s s.st t.now s.blockMetaFull

theorem moves_raiseIf (c : Prop) [Decidable c] (msg : String) : Moves nodeExec R (Node.raiseIf c msg) s :=
  Moves.ite (fun _ => .stop _) fun _ => .ret ()

theorem moves_nodeIp {Γ : Ctx} (msg name : String) : Moves nodeExec R (nodeIp Γ msg name) s := moves_calm (.nodeIp msg name)

theorem moves_getMetaFull {Γ : NodeCtx} (ti : Int) : Moves nodeExec R (getMetaFull Γ ti) s := moves_calm (.getMetaFull Γ ti)

end Parts

/-! ## What the handlers of responses check -/

section Admit

variable {R : NodeSt → NodeSt → Prop} [IsQuiet R] {s : NodeSt} {Γ : NodeCtx}

theorem moves_admitHeartBeatRSP (t : Clock) (m : HeartBeatRSP) : Moves nodeExec R (admitHeartBeatRSP Γ t m) s := by
  refine Moves.bind (moves_working t) fun _ s _ => moves_get_bind ?_
  refine Moves.ite (fun _ => .pure _) fun _ => Moves.ite (fun _ => .pure _) fun _ => ?_
  exact Moves.bind (moves_tree _) fun n s _ => .pure _

theorem moves_admitConfirmLeaderRSP (t : Clock) (m : ConfirmLeaderRSP) : Moves nodeExec R (admitConfirmLeaderRSP t m) s := by
  refine moves_get_bind (Moves.ite (fun _ => .pure _) fun _ => Moves.bind (moves_working t) fun _ s _ => moves_get_bind ?_)
  exact Moves.ite (fun _ => .pure _) fun _ => .pure _

theorem moves_admitValidateBlockRSP (r : ValidateBlockRSP) : Moves nodeExec R (admitValidateBlockRSP Γ r) s := by
  refine moves_get_bind (Moves.ite (fun _ => .pure _) fun _ => Moves.ite (fun _ => .pure _) fun _ => ?_)
  refine Moves.bind (moves_tree _) fun n u _ => ?_
  cases n with
  | none => exact .stop _
  | some n => exact .pure _

theorem moves_admitBlockDiffValidateRSP (r : BlockDiffValidateRSP) :
    Moves nodeExec R (admitBlockDiffValidateRSP Γ r) s := by
  refine moves_get_bind (Moves.ite (fun _ => .pure _) fun _ => ?_)
  cases s.bt.blockDiffValidateREQ with
  | none => exact .pure _
  | some bdv =>
    refine Moves.ite (fun _ => .pure _) fun _ => Moves.bind (moves_tree _) fun n u _ => ?_
    cases n with
    | none => exact .stop _
    | some n => exact .pure _

/-- Opening a message leaves the state as it is, or raises. -/
theorem moves_openRSP (parse : String → Option Response) (m : NodeMsgRSP) : Moves nodeExec R (openRSP Γ parse m) s := by
  refine Moves.bind (moves_tree _) fun n u _ => ?_
  cases n with
  | none => exact .pure _
  | some n =>
    refine Moves.bind (.ofExcept _) fun ok u _ => Moves.ite (fun _ => ?_) fun _ => .pure _
    cases parse m.msgPayload with
    | none => exact .stop _
    | some r => exact .pure _

theorem openRSP_ok {parse : String → Option Response} {m : NodeMsgRSP} {u : NodeSt} {r : Option Response}
    (h : runNode (openRSP Γ parse m) s = (.ok r, u)) : u = s ∧ (r = none ∨ r = parse m.msgPayload) := by
  unfold openRSP at h
  rw [runNode_bind] at h
  split at h
  case h_2 => nomatch h
  next n w hn =>
    obtain ⟨-, rfl⟩ := runNode_tree_inv (.getNodeNoCreate _) hn
    cases n with
    | none => exact ⟨(Prod.mk.inj h).2.symm, .inl (Except.ok.inj (Prod.mk.inj h).1).symm⟩
    | some n =>
      rw [runNode_bind, runNode_ofExcept] at h
      split at h
      case h_2 => nomatch h
      next ok w' hw =>
        obtain ⟨-, rfl⟩ := Prod.mk.inj hw
        split at h
        · cases hp : parse m.msgPayload with
          | none =>
            rw [hp] at h
            nomatch h
          | some r =>
            rw [hp] at h
            exact ⟨(Prod.mk.inj h).2.symm, .inr (Except.ok.inj (Prod.mk.inj h).1).symm⟩
        · exact ⟨(Prod.mk.inj h).2.symm, .inl (Except.ok.inj (Prod.mk.inj h).1).symm⟩

omit [IsQuiet R] in
theorem moves_admitGetTransactionRSP [IsRound R] (r : GetTransactionRSP) : Moves nodeExec R (admitGetTransactionRSP Γ r) s := by
  refine moves_get_bind (Moves.ite (fun _ => .pure _) fun _ => ?_)
  exact Moves.bind (moves_other fun _ => ⟨rfl, rfl, rfl, rfl, rfl⟩) fun _ s _ => moves_get_bind (.pure _)

omit [IsQuiet R] in
/-- What is checked of a response changes nothing of the round. -/
theorem moves_admit [IsRound R] (t : Clock) (r : Response) : Moves nodeExec R (r.admits Γ t) s := by
  cases r with
  | heartBeatRSP r => exact moves_admitHeartBeatRSP t r
  | confirmLeaderRSP r => exact moves_admitConfirmLeaderRSP t r
  | getTransactionRSP r => exact moves_admitGetTransactionRSP r
  | validateBlockRSP r => exact moves_admitValidateBlockRSP r
  | blockDiffValidateRSP r => exact moves_admitBlockDiffValidateRSP r

end Admit

end Grain
