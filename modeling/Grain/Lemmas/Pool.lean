import Grain.Lemmas.Rounds

/-!
# The pool of a leader

The pool is a map of transactions by their hashes. The handlers enter transactions under their own hashes, drop some of them or
build the map anew, and nothing else.
-/

namespace Grain

open Prog

/-- Every transaction of the pool is under its own hash. -/
def NodeSt.Pooled (Γ : NodeCtx) (s : NodeSt) : Prop :=
  ∀ k z, s.transactionPoolOfLeader[k]? = some z → Γ.thash z.getHash = k

/-- The pool stays a map by the hashes from `s` to `t`. -/
def KeepsPool (Γ : NodeCtx) (s t : NodeSt) : Prop := s.Pooled Γ → t.Pooled Γ

variable {Γ : NodeCtx}

instance : IsQuiet (KeepsPool Γ) where
  refl _ h := h
  trans _ _ _ h h' hs := h' (h hs)
  quiet _ _ _ _ h := h

/-! ## The changes of the pool -/

theorem KeepsPool.of_eq {s t : NodeSt} (h : t.transactionPoolOfLeader = s.transactionPoolOfLeader) : KeepsPool Γ s t := by
  intro hs k z hz
  rw [h] at hz
  exact hs k z hz

theorem pooled_insert {pool : StdMap String TX} (hp : ∀ k z, pool[k]? = some z → Γ.thash z.getHash = k) (tx : TX) :
    ∀ k z, (pool.insert (Γ.thash tx.getHash) tx)[k]? = some z → Γ.thash z.getHash = k := by
  intro k z hz
  rw [StdMap.getElem?_insert] at hz
  split at hz
  next hk =>
    obtain rfl := Option.some.inj hz
    exact hk
  next => exact hp k z hz

theorem pooled_insertAll {pool : StdMap String TX} (hp : ∀ k z, pool[k]? = some z → Γ.thash z.getHash = k) (l : List TX) :
    ∀ k z, (l.foldl (fun p z => p.insert (Γ.thash z.getHash) z) pool)[k]? = some z → Γ.thash z.getHash = k := by
  induction l generalizing pool with
  | nil => exact hp
  | cons x l ih => exact ih (pooled_insert hp x)

theorem pooled_insertNew {pool : StdMap String TX} (hp : ∀ k z, pool[k]? = some z → Γ.thash z.getHash = k) (l : List TX) :
    ∀ k z, (l.foldl (fun p z => p.insertIfNew (Γ.thash z.getHash) z) pool)[k]? = some z → Γ.thash z.getHash = k := by
  induction l generalizing pool with
  | nil => exact hp
  | cons x l ih =>
    refine ih fun k z hz => ?_
    rw [Std.ExtTreeMap.getElem?_insertIfNew] at hz
    split at hz
    next hk =>
      obtain rfl := Option.some.inj hz
      exact Std.LawfulEqCmp.eq_of_compare hk.1
    next => exact hp k z hz

theorem pooled_eraseAll {pool : StdMap String TX} (hp : ∀ k z, pool[k]? = some z → Γ.thash z.getHash = k) (l : List String) :
    ∀ k z, (l.foldl (fun p h => p.erase (Γ.thash h)) pool)[k]? = some z → Γ.thash z.getHash = k := by
  induction l generalizing pool with
  | nil => exact hp
  | cons x l ih =>
    refine ih fun k z hz => ?_
    rw [StdMap.getElem?_erase] at hz
    split at hz
    next => cases hz
    next => exact hp k z hz

/-! ## The handlers -/

section Handlers

variable (Γ) (t : Clock) (s : NodeSt)

theorem pool_modify {f : NodeSt → NodeSt} (h : (f s).transactionPoolOfLeader = s.transactionPoolOfLeader) :
    Moves nodeExec (KeepsPool Γ) (Node.modify f) s := moves_modify (.of_eq h)

theorem pool_send (m : Sent) : Moves nodeExec (KeepsPool Γ) (Node.send m) s := pool_modify Γ s rfl

theorem pool_onBt (f : BlockLeader → BlockLeader) : Moves nodeExec (KeepsPool Γ) (Node.modify fun s => s.onBt f) s :=
  pool_modify Γ s rfl

theorem pool_followRemote (remote : Option BlockAccepted2REQ) (src : String) :
    Moves nodeExec (KeepsPool Γ) (followRemote Γ remote src) s := by
  refine Moves.bind (pool_modify Γ s rfl) fun _ s _ => Moves.bind (pool_modify Γ s rfl) fun _ s _ => ?_
  refine Moves.bind (moves_nodeIp _ _) fun ip s _ => Moves.bind (pool_modify Γ s rfl) fun _ s _ => ?_
  exact moves_get_bind (pool_send Γ s _)

theorem pool_doHeartBeat (tnow : Int) : Moves nodeExec (KeepsPool Γ) (doHeartBeat Γ t tnow) s := by
  refine Moves.bind (moves_working t) fun _ s _ => moves_get_bind ?_
  cases s.rival Γ tnow with
  | some hb => exact .pure hb
  | none =>
    refine Moves.bind (moves_getMetaFull tnow) fun _ s _ => moves_get_bind ?_
    refine Moves.bind (pool_modify Γ s rfl) fun _ s _ => ?_
    exact Moves.bind (pool_send Γ s _) fun _ s _ => .pure _

theorem pool_judge (h : HeartBeatREQ) (remote : Option BlockAccepted2REQ) :
    Moves nodeExec (KeepsPool Γ) (judge Γ t h remote) s := by
  refine Moves.bind (moves_working t) fun _ s _ => ?_
  refine Moves.ite (fun _ => .pure _) fun _ => Moves.ite (fun _ => .pure _) fun _ => moves_get_bind ?_
  refine Moves.ite (fun _ => .pure _) fun _ => ?_
  have hexpire : (s.expire t h.prevRootHash1).transactionPoolOfLeader = s.transactionPoolOfLeader := by
    unfold NodeSt.expire
    split
    · rfl
    · split <;> rfl
  refine Moves.bind (pool_modify Γ s hexpire) fun _ s _ => moves_get_bind ?_
  refine Moves.bind (moves_tree _) fun rv s _ => Moves.bind (moves_tree _) fun lv s _ => ?_
  split
  · exact .pure _
  · exact moves_calm (.judgeFirst Γ t h)
  · exact .pure _
  · exact moves_calm (.judgeNext Γ t h _ _)
  · exact .pure _

theorem pool_carryOut (h : HeartBeatREQ) (remote : Option BlockAccepted2REQ) (src : String) (v : Verdict) :
    Moves nodeExec (KeepsPool Γ) (carryOut Γ t h remote src v) s := by
  have hreply : ∀ s, Moves nodeExec (KeepsPool Γ) (replyHeartBeatRSP Γ t h) s := by
    intro s
    exact Moves.bind (moves_working t) fun _ s _ => pool_send Γ s _
  cases v with
  | reply => exact Moves.bind (hreply s) fun _ s _ => .pure _
  | ignore forward => exact .pure _
  | delay msg =>
    refine Moves.bind (moves_nodeIp _ _) fun ip s _ => moves_get_bind ?_
    cases s.prevBlock with
    | none => exact Moves.bind (.pure _) fun _ s _ => .pure _
    | some lc => exact Moves.bind (pool_send Γ s _) fun _ s _ => .pure _
  | adopt clear cert =>
    have hadopt : (s.adopt clear cert h).transactionPoolOfLeader = s.transactionPoolOfLeader := by
      cases cert <;> rfl
    exact Moves.bind (pool_modify Γ s hadopt) fun _ s _ => Moves.bind (hreply s) fun _ s _ => .pure _
  | promote forward => exact Moves.bind (pool_doHeartBeat Γ t s _) fun _ s _ => .pure _
  | sync onlyIfEmpty =>
    refine moves_get_bind (Moves.ite (fun _ => .pure _) fun _ => ?_)
    exact Moves.bind (pool_followRemote Γ s remote src) fun _ s _ => .pure _

theorem pool_confirmLeaderREQ (hb : HeartBeatREQ) : Moves nodeExec (KeepsPool Γ) (confirmLeaderREQ Γ t hb) s := by
  refine moves_get_bind (Moves.ite (fun _ => .pure _) fun _ => Moves.bind (moves_working t) fun _ s _ => ?_)
  refine moves_get_bind (Moves.ite (fun _ => .pure _) fun _ => ?_)
  have hrecord : (s.recordIfNone hb).transactionPoolOfLeader = s.transactionPoolOfLeader := by
    unfold NodeSt.recordIfNone
    split <;> rfl
  refine Moves.bind (pool_modify Γ s hrecord) fun _ s _ => moves_get_bind ?_
  exact Moves.ite (fun _ => pool_send Γ s _) fun _ => .pure _

theorem pool_putTransactionREQ (tx : TX) : Moves nodeExec (KeepsPool Γ) (putTransactionREQ Γ t tx) s := by
  have hput : KeepsPool Γ s { s with transactionPoolOfLeader := s.transactionPoolOfLeader.insert (Γ.thash tx.getHash) tx } :=
    fun hs => pooled_insert hs tx
  refine Moves.bind (moves_modify hput) fun _ s _ => moves_get_bind (Moves.ite (fun _ => ?_) fun _ => .pure _)
  exact Moves.bind (moves_working t) fun _ s _ => Moves.bind (pool_doHeartBeat Γ t s _) fun _ s _ => .pure _

theorem pool_validateBlockREQ (r : ValidateBlockREQ) (src : String) :
    Moves nodeExec (KeepsPool Γ) (validateBlockREQ Γ t r src) s := by
  refine Moves.bind (moves_working t) fun _ s _ => moves_get_bind (Moves.ite (fun _ => .pure _) fun _ => ?_)
  refine Moves.bind (pool_modify Γ s rfl) fun _ s _ => Moves.bind (moves_getMetaFull _) fun mf s _ => ?_
  refine Moves.bind (moves_admitValidateBlockREQ Γ r src mf) fun ok s _ => Moves.ite (fun _ => ?_) fun _ => .pure _
  refine Moves.bind (moves_tree _) fun _ s _ => Moves.bind (moves_tree _) fun fees s _ => moves_get_bind ?_
  exact Moves.bind (moves_tree _) fun root s _ => moves_get_bind (pool_send Γ s _)

theorem pool_blockDiffValidateREQ (r : BlockDiffValidateREQ) (src : String) :
    Moves nodeExec (KeepsPool Γ) (blockDiffValidateREQ Γ t r src) s := by
  refine moves_get_bind (Moves.ite (fun _ => .pure _) fun _ => Moves.bind (moves_working t) fun _ s _ => moves_get_bind ?_)
  refine Moves.ite (fun _ => .pure _) fun _ => Moves.bind (moves_acceptsValidators Γ _) fun ok s _ => ?_
  refine Moves.ite (fun _ => ?_) fun _ => .pure _
  exact Moves.bind (moves_tree _) fun root s _ => Moves.ite (fun _ => .pure _) fun _ => pool_send Γ s _

theorem pool_blockDBStore (r : BlockDBStore) (src : String) : Moves nodeExec (KeepsPool Γ) (blockDBStore Γ t r src) s := by
  refine Moves.bind (moves_admitBlockDBStore Γ t r src) fun ok s _ => Moves.ite (fun _ => ?_) fun _ => .pure _
  refine Moves.bind (pool_modify Γ s rfl) fun _ s _ => Moves.bind (pool_send Γ s _) fun _ s _ => ?_
  have hfollow : KeepsPool Γ s (s.follow Γ r) := fun hs => pooled_eraseAll hs r.txHashes
  refine Moves.bind (moves_modify hfollow) fun _ s _ => Moves.bind (moves_tree _) fun _ s _ => ?_
  refine Moves.bind (pool_modify Γ s rfl) fun _ s _ => moves_get_bind ?_
  exact Moves.ite (fun _ => .pure _) fun _ => Moves.bind (pool_doHeartBeat Γ t s _) fun _ s _ => .pure _

/-- Every request of another node. -/
theorem pool_request (src : String) (r : Request) : Moves nodeExec (KeepsPool Γ) (r.handler Γ t src) s := by
  cases r with
  | heartBeatREQ h remote =>
    refine Moves.bind ?_ fun _ s _ => .pure _
    exact Moves.bind (pool_judge Γ t s h remote) fun v s _ => pool_carryOut Γ t s h remote src v
  | confirmLeaderREQ hb => exact pool_confirmLeaderREQ Γ t s hb
  | getTransactionREQ hb =>
    refine Moves.bind (moves_working t) fun _ s _ => moves_get_bind ?_
    exact Moves.ite (fun _ => .pure _) fun _ => Moves.ite (fun _ => pool_send Γ s _) fun _ => .pure _
  | validateBlockREQ r => exact pool_validateBlockREQ Γ t s r src
  | blockDiffValidateREQ r => exact pool_blockDiffValidateREQ Γ t s r src
  | blockDBStore r => exact pool_blockDBStore Γ t s r src
  | delayNotificationREQ lc =>
    refine Moves.bind (moves_tree _) fun ok s _ => Moves.ite (fun _ => moves_get_bind ?_) fun _ => .pure _
    exact Moves.ite (fun _ => pool_followRemote Γ s _ src) fun _ => .pure _

theorem pool_getTransactionRSP (src : String) (r : GetTransactionRSP) :
    Moves nodeExec (KeepsPool Γ) (getTransactionRSP Γ src r) s := by
  have hadmit : Moves nodeExec (KeepsPool Γ) (admitGetTransactionRSP Γ r) s := by
    refine moves_get_bind (Moves.ite (fun _ => .pure _) fun _ => ?_)
    exact Moves.bind (moves_modify fun hs => pooled_insertNew hs r.trs) fun _ s _ => moves_get_bind (.pure _)
  refine Moves.bind hadmit fun ok s _ => Moves.ite (fun _ => ?_) fun _ => .pure _
  refine Moves.bind (pool_onBt Γ s _) fun _ s _ => moves_get_bind (Moves.bind (moves_tree _) fun hb s _ => ?_)
  refine Moves.bind (moves_getMetaFull _) fun mf s _ => moves_get_bind (Moves.bind (moves_tree _) fun q s _ => ?_)
  exact Moves.ite (fun _ => pool_send Γ s _) fun _ => .pure _

/-- Every response of another node. -/
theorem pool_response (src : String) (r : Response) : Moves nodeExec (KeepsPool Γ) (r.handler Γ t src) s := by
  cases r with
  | heartBeatRSP r =>
    refine Moves.bind (moves_admitHeartBeatRSP t r) fun ok s _ => Moves.ite (fun _ => ?_) fun _ => .pure _
    refine Moves.bind (pool_onBt Γ s _) fun _ s _ => Moves.bind (moves_getMetaFull _) fun mf s _ => moves_get_bind ?_
    refine Moves.bind (moves_tree _) fun q s _ => Moves.ite (fun _ => ?_) fun _ => .pure _
    exact Moves.bind (pool_send Γ s _) fun _ s _ => pool_onBt Γ s _
  | confirmLeaderRSP r =>
    refine Moves.bind (moves_admitConfirmLeaderRSP t r) fun ok s _ => Moves.ite (fun _ => ?_) fun _ => .pure _
    refine Moves.bind (pool_onBt Γ s _) fun _ s _ => Moves.bind (moves_getMetaFull _) fun mf s _ => moves_get_bind ?_
    refine Moves.bind (moves_tree _) fun q s _ => Moves.ite (fun _ => ?_) fun _ => .pure _
    refine Moves.bind (moves_get_bind ?_) fun _ s _ => pool_onBt Γ s _
    cases s.bt.leaderCert2 with
    | none => exact .stop _
    | some hb => exact pool_send Γ s _
  | getTransactionRSP r => exact pool_getTransactionRSP Γ s src r
  | validateBlockRSP r =>
    refine Moves.bind (moves_admitValidateBlockRSP r) fun ok s _ => Moves.ite (fun _ => ?_) fun _ => .pure _
    refine Moves.bind (pool_onBt Γ s _) fun _ s _ => Moves.bind (moves_getMetaFull _) fun mf s _ => moves_get_bind ?_
    refine Moves.bind (moves_tree _) fun q s _ => Moves.ite (fun _ => ?_) fun _ => .pure _
    refine Moves.bind (pool_onBt Γ s _) fun _ s _ => moves_get_bind (Moves.bind (moves_tree _) fun ns s _ => ?_)
    refine Moves.ite (fun _ => ?_) fun _ => .pure _
    exact Moves.bind (pool_send Γ s _) fun _ s _ => pool_onBt Γ s _
  | blockDiffValidateRSP r =>
    refine Moves.bind (moves_admitBlockDiffValidateRSP r) fun ok s _ => Moves.ite (fun _ => ?_) fun _ => .pure _
    refine Moves.bind (pool_onBt Γ s _) fun _ s _ => moves_get_bind (Moves.bind (moves_tree _) fun q s _ => ?_)
    refine Moves.ite (fun _ => moves_get_bind (Moves.bind (moves_tree _) fun bdv s _ => ?_)) fun _ => .pure _
    refine Moves.bind (moves_tree _) fun ns s _ => Moves.bind (moves_raiseIf _ _) fun _ s _ => ?_
    exact pool_send Γ s _

/-- The pool is built anew from its own transactions. -/
theorem pool_doStartBlock : Moves nodeExec (KeepsPool Γ) (doStartBlock Γ) s := by
  refine moves_get_bind (Moves.ite (fun _ => .pure _) fun _ => Moves.ite (fun _ => .pure _) fun _ => ?_)
  cases s.bt.leaderCert2 with
  | none => exact .pure _
  | some hb =>
    refine Moves.bind (moves_getMetaFull _) fun mf s _ => moves_get_bind (Moves.bind (moves_tree _) fun lc s _ => ?_)
    have hcollect : Moves nodeExec (KeepsPool Γ) (collectTransactions Γ) s := by
      refine moves_get_bind (Moves.bind (.ofExcept _) fun o u _ => moves_modify fun _ => ?_)
      refine pooled_insertAll (fun k z hz => ?_) _
      cases hz
    exact Moves.bind hcollect fun _ s _ => moves_get_bind (pool_send Γ s _)

theorem pool_onAlarm (a : Alarm) : Moves nodeExec (KeepsPool Γ) (onAlarm Γ a) s := by
  cases a with
  | getTransactionRSP hbHash =>
    refine moves_get_bind (Moves.ite (fun _ => .pure _) fun _ => Moves.bind (moves_tree _) fun q s _ => ?_)
    exact Moves.ite (fun _ => Moves.bind (pool_doStartBlock Γ s) fun _ s _ => pool_onBt Γ s _) fun _ => .pure _
  | blockDBStore r =>
    refine moves_get_bind (Moves.bind (moves_tree _) fun q s _ => Moves.ite (fun _ => ?_) fun _ => .pure _)
    refine Moves.bind (moves_getMetaFull _) fun mf s _ => Moves.bind (pool_send Γ s _) fun _ s _ => ?_
    exact pool_onBt Γ s _
  | blockDiffValidateREQ r =>
    refine Moves.bind (moves_getMetaFull _) fun mf s _ => moves_get_bind (Moves.bind (moves_tree _) fun q s _ => ?_)
    exact Moves.ite (fun _ => Moves.bind (pool_send Γ s _) fun _ s _ => pool_onBt Γ s _) fun _ => .pure _

/-- Every event of a node. -/
theorem pool_nodeStep (parse : String → Option Response) (e : Clock × NodeEvent) : KeepsPool Γ s (nodeStep Γ parse e s) := by
  obtain ⟨t, e⟩ := e
  change Moves nodeExec (KeepsPool Γ) (e.handler Γ parse t) s
  cases e with
  | request src r => exact pool_request Γ t s src r
  | response m =>
    refine Moves.bind (moves_openRSP parse m) fun r s _ => ?_
    cases r with
    | none => exact .pure _
    | some r => exact pool_response Γ t s m.nodeSigner r
  | putTransactionREQ tx => exact pool_putTransactionREQ Γ t s tx
  | alarm a => exact pool_onAlarm Γ s a
  | granules db y =>
    refine Moves.bind (pool_modify Γ s rfl) fun _ s _ => ?_
    exact Moves.ite (fun _ => pool_modify Γ s rfl) fun _ => .pure _

end Handlers

/-- A run of a node keeps the pool a map by the hashes. -/
theorem Pooled.nodeRun {s : NodeSt} (hs : s.Pooled Γ) (parse : String → Option Response) (es : List (Clock × NodeEvent)) :
    (nodeRun Γ parse es s).Pooled Γ := by
  induction es generalizing s with
  | nil => exact hs
  | cons e es ih => exact ih (pool_nodeStep Γ s parse e hs)

end Grain
