import Grain.BroadcasterTree

/-!
# Delivery of a broadcast

The broadcast is done with a node of the tree (`Done`) when the node, being live, has handed the message over, or, being crashed,
has been given up by a process that sends to its children instead. Every child of such a node is done with itself, or a message
to it is in flight if it is live, or an alarm for it is pending if it is crashed. An acknowledgement stops no alarm for a
crashed node, since the hash of a message within one broadcast determines the child.
-/

namespace Grain

/-! ## The tree -/

/-- The loop puts what is left of the nodes below the root. -/
theorem perm_buildLoop {nodes : List NodeElement} {q : List (List Nat)} {root : TreeNode} (hq : q ≠ [])
    (hr : ∀ p ∈ q, Rose.Reaches p root) :
    (buildLoop nodes q root).node = root.node ∧
      ((buildLoop nodes q root).beneath.map Rose.node).Perm (nodes ++ root.beneath.map Rose.node) := by
  induction nodes, q, root using buildLoop.induct with
  | case1 r₁ r₂ rest cur q root x y ih =>
    have hcur : Rose.Reaches cur root := hr cur List.mem_cons_self
    have hx : ∀ p ∈ x.1, Rose.Reaches p x.2 := by
      intro p hp
      rcases List.mem_append.1 hp with hp | hp
      · exact (hr p (List.mem_cons_of_mem _ hp)).addChild
      · obtain rfl := List.mem_singleton.1 hp
        exact Rose.reaches_addChild hcur
    have hcur' : Rose.Reaches cur x.2 := hcur.addChild
    have hy : ∀ p ∈ y.1, Rose.Reaches p y.2 := by
      intro p hp
      rcases List.mem_append.1 hp with hp | hp
      · exact (hx p hp).addChild
      · obtain rfl := List.mem_singleton.1 hp
        exact Rose.reaches_addChild hcur'
    have hne : y.1 ≠ [] := by
      intro h
      have := congrArg List.length h
      simp [y, x, emplaceBack] at this
    obtain ⟨h1, h2⟩ := ih hne hy
    rw [buildLoop]
    constructor
    · rw [h1]
      exact (Rose.node_addChild _ _ _).trans (Rose.node_addChild _ _ _)
    · have hp1 : (x.2.beneath.map Rose.node).Perm (r₁ :: root.beneath.map Rose.node) := Rose.beneath_addChild r₁ hcur
      have hp2 : (y.2.beneath.map Rose.node).Perm (r₂ :: x.2.beneath.map Rose.node) := Rose.beneath_addChild r₂ hcur'
      have hp : (rest ++ y.2.beneath.map Rose.node).Perm (rest ++ r₂ :: r₁ :: root.beneath.map Rose.node) :=
        (hp2.trans (hp1.cons r₂)).append_left rest
      refine h2.trans (hp.trans ?_)
      refine (List.perm_middle.trans (List.perm_middle.cons r₂)).trans ?_
      exact List.Perm.swap r₁ r₂ _
  | case2 r cur q root =>
    exact ⟨Rose.node_addChild _ _ _, Rose.beneath_addChild r (hr cur List.mem_cons_self)⟩
  | case3 nodes q root h1 h2 =>
    cases q with
    | nil => exact absurd rfl hq
    | cons cur q =>
      match nodes with
      | [] =>
        rw [buildLoop]
        · exact ⟨rfl, .refl _⟩
        · exact fun _ _ _ _ _ h => (nomatch h)
        · exact fun _ _ _ h => (nomatch h)
      | [r] => exact (h2 r cur q rfl rfl).elim
      | r₁ :: r₂ :: rest => exact (h1 r₁ r₂ rest cur q rfl rfl).elim

/-- The nodes below the root of a tree are those it was made from. -/
theorem perm_buildTree {nodes : List NodeElement} {t : TreeNode} (h : buildTree nodes = .ok t) :
    (t.beneath.map Rose.node).Perm nodes := by
  unfold buildTree at h
  split at h
  · nomatch h
  · obtain rfl := Except.ok.inj h
    have hr : ∀ p ∈ [([] : List Nat)], Rose.Reaches p (.mk { name := "fake" } [] : TreeNode) := by
      intro p hp
      obtain rfl := List.mem_singleton.1 hp
      trivial
    have : ((buildLoop nodes [[]] (.mk { name := "fake" } [])).beneath.map Rose.node).Perm
        (nodes ++ (Rose.mk { name := "fake" } [] : TreeNode).beneath.map Rose.node) :=
      (perm_buildLoop (List.cons_ne_nil _ _) hr).2
    simpa using this

/-! ## The invariant -/

/-- A message of the broadcast for a node of its tree. -/
structure SendToChild.Of (b : BroadcastMessage) (e : SendToChild) : Prop where
  dstService : e.dstService = b.dstService
  nodeSigner : e.nodeSigner = b.nodeSigner
  nodeStartTimestamp : e.nodeStartTimestamp = b.nodeStartTimestamp
  seqId2 : e.seqId2 = b.seqId
  payloadSignature : e.payloadSignature = b.signaturePl
  payload : e.payload = b.msg
  bt : e.bt ∈ b.nodes.beneath

/-- What a process has handed over is the message of the broadcast, for its service. -/
structure Delivery.Of (b : BroadcastMessage) (d : Delivery) : Prop where
  service : d.service = b.dstService
  nodeSigner : d.req.nodeSigner = b.nodeSigner
  nodeStartTimestamp : d.req.nodeStartTimestamp = b.nodeStartTimestamp
  seqId2 : d.req.seqId2 = b.seqId
  signature : d.req.signature = b.signaturePl
  msgPayload : d.req.msgPayload = b.msg

/-- The names of the nodes of the tree are different. -/
def BroadcastMessage.Distinct (b : BroadcastMessage) : Prop :=
  ((b.nodes.beneath.map Rose.node).map NodeElement.name).Nodup

/-- The hash of a message of the broadcast determines the node. -/
theorem SendToChild.Of.bt_eq {b : BroadcastMessage} (hb : b.Distinct) {e e' : SendToChild} (h : e.Of b) (h' : e'.Of b)
    (hh : e.hash = e'.hash) : e.bt = e'.bt := by
  unfold SendToChild.hash at hh
  rw [h.nodeSigner, h.nodeStartTimestamp, h.seqId2, h.payloadSignature, h.payload, h'.nodeSigner, h'.nodeStartTimestamp,
    h'.seqId2, h'.payloadSignature, h'.payload] at hh
  have hname : e.bt.node.name = e'.bt.node.name := (String.append_right_inj _).1 hh
  unfold BroadcastMessage.Distinct at hb
  rw [List.map_map] at hb
  exact List.inj_on_of_nodup_map hb h.bt h'.bt hname

namespace Net

variable {live : String → Prop} {b : BroadcastMessage} {n : Net} {D : TreeNode → Prop} {me : String} {root : TreeNode}
  {route : List Route}

/-- Something is on its way to the node, or to its children if it is crashed. -/
def Pending (live : String → Prop) (n : Net) (d : TreeNode) : Prop :=
  (live d.node.ip ∧ ∃ p ∈ n.packets, p.ev.bt = d) ∨
    (¬ live d.node.ip ∧ ((∃ a ∈ n.alarms, a.cookie.bt = d) ∨ ∃ a ∈ n.ticks, a.cookie.bt = d))

/-- The invariant: `D` are the nodes that the broadcast is done with. -/
structure Inv (live : String → Prop) (b : BroadcastMessage) (n : Net) (D : TreeNode → Prop) : Prop where
  packets : ∀ p ∈ n.packets, p.ev.Of b ∧ p.dst = p.ev.bt.node.ip
  alarms : ∀ a ∈ n.alarms, a.cookie.Of b
  ticks : ∀ a ∈ n.ticks, a.cookie.Of b
  acks : ∀ a ∈ n.acks, ∃ e : SendToChild, e.Of b ∧ live e.bt.node.ip ∧ a.hash = e.hash
  delivered : ∀ d ∈ n.delivered, live d.ip ∧ d.Of b
  done : ∀ d, D d → live d.node.ip → ∃ x ∈ n.delivered, x.ip = d.node.ip
  top : ∀ d ∈ b.nodes.children, D d ∨ n.Pending live d
  next : ∀ c, D c → ∀ d ∈ c.children, D d ∨ n.Pending live d

/-! ## Sending on -/

/-- `make_broadcast_message_to_tree` with what the broadcast sends. -/
def sends (b : BroadcastMessage) (me : String) (root : TreeNode) (route : List Route) (n : Net) : Net :=
  n.makeBroadcastMessageToTree me b.dstService b.nodeSigner b.nodeStartTimestamp b.seqId b.signaturePl b.msg root route

/-- The message for a child. -/
def msgFor (b : BroadcastMessage) (it : TreeNode) (route : List Route) : SendToChild where
  nodeSigner := b.nodeSigner
  nodeStartTimestamp := b.nodeStartTimestamp
  seqId2 := b.seqId
  payloadSignature := b.signaturePl
  payload := b.msg
  bt := it
  dstService := b.dstService
  dstNodeName := it.node.name
  route := route

theorem mem_sends_packets {p : Packet} :
    p ∈ (n.sends b me root route).packets ↔
      p ∈ n.packets ∨ ∃ it ∈ root.children, p = ⟨me, it.node.ip, msgFor b it route⟩ := by
  change p ∈ n.packets ++ root.children.map (fun it => (⟨me, it.node.ip, msgFor b it route⟩ : Packet)) ↔ _
  rw [List.mem_append, List.mem_map]
  constructor
  · rintro (h | ⟨it, hit, rfl⟩)
    · exact .inl h
    · exact .inr ⟨it, hit, rfl⟩
  · rintro (h | ⟨it, hit, rfl⟩)
    · exact .inl h
    · exact .inr ⟨it, hit, rfl⟩

theorem mem_sends_alarms {a : Timer} :
    a ∈ (n.sends b me root route).alarms ↔ a ∈ n.alarms ∨ ∃ it ∈ root.children, a = ⟨me, msgFor b it route⟩ := by
  change a ∈ n.alarms ++ root.children.map (fun it => (⟨me, msgFor b it route⟩ : Timer)) ↔ _
  rw [List.mem_append, List.mem_map]
  constructor
  · rintro (h | ⟨it, hit, rfl⟩)
    · exact .inl h
    · exact .inr ⟨it, hit, rfl⟩
  · rintro (h | ⟨it, hit, rfl⟩)
    · exact .inl h
    · exact .inr ⟨it, hit, rfl⟩

/-- What was pending is pending after more is sent. -/
theorem Pending.sends {d : TreeNode} (h : n.Pending live d) : (n.sends b me root route).Pending live d := by
  rcases h with ⟨hl, p, hp, hd⟩ | ⟨hl, ⟨a, ha, hd⟩ | ⟨a, ha, hd⟩⟩
  · exact .inl ⟨hl, p, mem_sends_packets.2 (.inl hp), hd⟩
  · exact .inr ⟨hl, .inl ⟨a, mem_sends_alarms.2 (.inl ha), hd⟩⟩
  · exact .inr ⟨hl, .inr ⟨a, ha, hd⟩⟩

/-- The children are sent to: a live one gets the message, a crashed one has an alarm. -/
theorem pending_sends {d : TreeNode} (h : d ∈ root.children) : (n.sends b me root route).Pending live d := by
  by_cases hl : live d.node.ip
  · exact .inl ⟨hl, _, mem_sends_packets.2 (.inr ⟨d, h, rfl⟩), rfl⟩
  · exact .inr ⟨hl, .inl ⟨_, mem_sends_alarms.2 (.inr ⟨d, h, rfl⟩), rfl⟩⟩

theorem of_msgFor {it : TreeNode} (h : it ∈ b.nodes.beneath) : (msgFor b it route).Of b := ⟨rfl, rfl, rfl, rfl, rfl, rfl, h⟩

/-- Sending to the children of a node, which is then done with. `hP` says that nothing else was lost. -/
theorem Inv.sends {n₀ : Net} {D' : TreeNode → Prop} (h : n₀.Inv live b D)
    (hc : ∀ it ∈ root.children, it ∈ b.nodes.beneath)
    (hpk : ∀ p ∈ n.packets, p ∈ n₀.packets) (hal : ∀ a ∈ n.alarms, a ∈ n₀.alarms) (htk : ∀ a ∈ n.ticks, a ∈ n₀.ticks)
    (hack : ∀ a ∈ n.acks, ∃ e : SendToChild, e.Of b ∧ live e.bt.node.ip ∧ a.hash = e.hash)
    (hdel : ∀ d ∈ n.delivered, live d.ip ∧ d.Of b) (hdone : ∀ d, D' d → live d.node.ip → ∃ x ∈ n.delivered, x.ip = d.node.ip)
    (hP : ∀ d, D d ∨ n₀.Pending live d → D' d ∨ n.Pending live d) (hD : ∀ d, D' d → D d ∨ d = root) :
    (n.sends b me root route).Inv live b D' := by
  have hP' : ∀ d, D d ∨ n₀.Pending live d → D' d ∨ (n.sends b me root route).Pending live d :=
    fun d hd => (hP d hd).imp_right Pending.sends
  constructor
  · intro p hp
    rcases mem_sends_packets.1 hp with hp | ⟨it, hit, rfl⟩
    · exact h.packets p (hpk p hp)
    · exact ⟨of_msgFor (hc it hit), rfl⟩
  · intro a ha
    rcases mem_sends_alarms.1 ha with ha | ⟨it, hit, rfl⟩
    · exact h.alarms a (hal a ha)
    · exact of_msgFor (hc it hit)
  · exact fun a ha => h.ticks a (htk a ha)
  · exact hack
  · exact hdel
  · exact hdone
  · exact fun d hd => hP' d (h.top d hd)
  · intro c hc d hd
    rcases hD c hc with hDc | rfl
    · exact hP' d (h.next c hDc d hd)
    · exact .inr (pending_sends hd)

/-! ## The steps -/

/-- The children of a node of the tree are nodes of the tree. -/
theorem children_beneath {e : SendToChild} (h : e.Of b) : ∀ it ∈ e.bt.children, it ∈ b.nodes.beneath :=
  fun _ hit => Rose.beneath_trans h.bt (Rose.mem_beneath_of_mem_children hit)

/-- A message of the broadcast is passed on as such. -/
theorem onAlarm_eq {e : SendToChild} (h : e.Of b) : n.onAlarm me e = n.sends b me e.bt e.route := by
  unfold onAlarm Net.sends
  rw [h.dstService, h.nodeSigner, h.nodeStartTimestamp, h.seqId2, h.payloadSignature, h.payload]

theorem sendToChild_eq (n : Net) (me : String) {e : SendToChild} (h : e.Of b) : ∃ d : Delivery, d.ip = me ∧ d.Of b ∧
    n.sendToChild me e = (({ n with delivered := n.delivered ++ [d] } : Net).passAck e.hash e.route.dropLast).sends b me
      e.bt e.route := by
  refine ⟨⟨me, e.dstService,
    ⟨e.nodeSigner, e.nodeStartTimestamp, e.seqId2, e.payloadSignature, e.payload, e.route⟩⟩, rfl, ?_, ?_⟩
  · exact ⟨h.dstService, h.nodeSigner, h.nodeStartTimestamp, h.seqId2, h.payloadSignature, h.payload⟩
  · unfold sendToChild Net.sends
    rw [h.dstService, h.nodeSigner, h.nodeStartTimestamp, h.seqId2, h.payloadSignature, h.payload]

theorem passAck_packets {h : String} : (n.passAck h route).packets = n.packets := by
  unfold passAck
  split <;> rfl

theorem passAck_alarms {h : String} : (n.passAck h route).alarms = n.alarms := by
  unfold passAck
  split <;> rfl

theorem passAck_ticks {h : String} : (n.passAck h route).ticks = n.ticks := by
  unfold passAck
  split <;> rfl

theorem passAck_delivered {h : String} : (n.passAck h route).delivered = n.delivered := by
  unfold passAck
  split <;> rfl

theorem mem_passAck_acks {h : String} {a : Ack} (ha : a ∈ (n.passAck h route).acks) : a ∈ n.acks ∨ a.hash = h := by
  unfold passAck at ha
  split at ha
  · rcases List.mem_append.1 ha with ha | ha
    · exact .inl ha
    · obtain rfl := List.mem_singleton.1 ha
      exact .inr rfl
  · exact .inl ha

theorem mem_rest {α : Type} {x y : α} {l r : List α} (h : x ∈ l ++ r) : x ∈ l ++ y :: r := by
  rcases List.mem_append.1 h with h | h
  · exact List.mem_append_left _ h
  · exact List.mem_append_right _ (List.mem_cons_of_mem _ h)

theorem mem_or_eq {α : Type} {x y : α} {l r : List α} (h : x ∈ l ++ y :: r) : x = y ∨ x ∈ l ++ r := by
  rcases List.mem_append.1 h with h | h
  · exact .inr (List.mem_append_left _ h)
  · rcases List.mem_cons.1 h with h | h
    · exact .inl h
    · exact .inr (List.mem_append_right _ h)

/-- A live process gets a message: the broadcast is done with its node. -/
theorem Inv.sendToChild {l r : List Packet} {p : Packet} (h : n.Inv live b D) (hp : n.packets = l ++ p :: r) (hl : live p.dst) :
    ((({ n with packets := l ++ r } : Net).sendToChild p.dst p.arrived)).Inv live b fun d => D d ∨ d = p.ev.bt := by
  have hmem : p ∈ n.packets := by rw [hp]; exact List.mem_append_right _ List.mem_cons_self
  obtain ⟨hof, hdst⟩ := h.packets p hmem
  have hof' : p.arrived.Of b :=
    ⟨hof.dstService, hof.nodeSigner, hof.nodeStartTimestamp, hof.seqId2, hof.payloadSignature, hof.payload, hof.bt⟩
  obtain ⟨x, hx, hxof, he⟩ := sendToChild_eq { n with packets := l ++ r } p.dst hof'
  rw [he]
  refine h.sends (children_beneath hof') ?_ ?_ ?_ ?_ ?_ ?_ ?_ ?_
  · intro q hq
    rw [passAck_packets] at hq
    rw [hp]
    exact mem_rest hq
  · intro a ha
    rwa [passAck_alarms] at ha
  · intro a ha
    rwa [passAck_ticks] at ha
  · intro a ha
    rcases mem_passAck_acks ha with ha | ha
    · exact h.acks a ha
    · exact ⟨_, hof', by rw [show p.arrived.bt = p.ev.bt from rfl, ← hdst]; exact hl, ha⟩
  · intro d hd
    rw [passAck_delivered] at hd
    rcases List.mem_append.1 hd with hd | hd
    · exact h.delivered d hd
    · obtain rfl := List.mem_singleton.1 hd
      exact ⟨by rw [hx]; exact hl, hxof⟩
  · intro d hd hlive
    rw [passAck_delivered]
    rcases hd with hd | rfl
    · obtain ⟨y, hy, hyd⟩ := h.done d hd hlive
      exact ⟨y, List.mem_append_left _ hy, hyd⟩
    · exact ⟨x, List.mem_append_right _ (List.mem_singleton.2 rfl), by rw [hx, hdst]⟩
  · -- what was pending by this message is done
    rintro d (hd | ⟨hlive, q, hq, hqd⟩ | ⟨hdead, ha⟩)
    · exact .inl (.inl hd)
    · rw [hp] at hq
      rcases mem_or_eq hq with rfl | hq
      · exact .inl (.inr hqd.symm)
      · exact .inr (.inl ⟨hlive, q, by rw [passAck_packets]; exact hq, hqd⟩)
    · exact .inr (.inr ⟨hdead, by rw [passAck_alarms, passAck_ticks]; exact ha⟩)
  · exact fun d hd => hd

/-- A process that is not answered sends to the children: the broadcast is done with a crashed node. -/
theorem Inv.tickAlarm {l r : List Timer} {a : Timer} (h : n.Inv live b D) (ha : n.ticks = l ++ a :: r) :
    (({ n with ticks := l ++ r } : Net).onAlarm a.owner a.cookie).Inv live b
      fun d => D d ∨ (d = a.cookie.bt ∧ ¬ live d.node.ip) := by
  have hmem : a ∈ n.ticks := by rw [ha]; exact List.mem_append_right _ List.mem_cons_self
  have hof := h.ticks a hmem
  rw [onAlarm_eq hof]
  refine h.sends (children_beneath hof) (fun p hp => hp) (fun x hx => hx) ?_ h.acks h.delivered ?_ ?_ ?_
  · intro x hx
    rw [ha]
    exact mem_rest hx
  · rintro d (hd | ⟨-, hdead⟩) hlive
    · exact h.done d hd hlive
    · exact absurd hlive hdead
  · rintro d (hd | ⟨hlive, hq⟩ | ⟨hdead, hx | ⟨x, hx, hxd⟩⟩)
    · exact .inl (.inl hd)
    · exact .inr (.inl ⟨hlive, hq⟩)
    · exact .inr (.inr ⟨hdead, .inl hx⟩)
    · rw [ha] at hx
      rcases mem_or_eq hx with rfl | hx
      · exact .inl (.inr ⟨hxd.symm, hdead⟩)
      · exact .inr (.inr ⟨hdead, .inr ⟨x, hx, hxd⟩⟩)
  · rintro d (hd | ⟨hd, -⟩)
    · exact .inl hd
    · exact .inr hd

/-- An acknowledgement stops no alarm for a crashed node. -/
theorem Inv.sendToChildAck {l r : List Ack} {a : Ack} (hb : b.Distinct) (h : n.Inv live b D) (ha : n.acks = l ++ a :: r) :
    (({ n with acks := l ++ r } : Net).sendToChildAck a).Inv live b D := by
  have hmem : a ∈ n.acks := by rw [ha]; exact List.mem_append_right _ List.mem_cons_self
  obtain ⟨e, heof, helive, hhash⟩ := h.acks a hmem
  have hacks : ∀ x ∈ l ++ r, ∃ e : SendToChild, e.Of b ∧ live e.bt.node.ip ∧ x.hash = e.hash := by
    intro x hx
    exact h.acks x (by rw [ha]; exact mem_rest hx)
  unfold Net.sendToChildAck
  split
  · have hkeep : ∀ d, n.Pending live d → Pending live { n with
        acks := l ++ r, alarms := n.alarms.filter fun x => ¬ (x.owner = a.dst ∧ x.cookie.hash = a.hash) } d := by
      rintro d (hd | ⟨hdead, ⟨x, hx, hxd⟩ | hx⟩)
      · exact .inl hd
      · refine .inr ⟨hdead, .inl ⟨x, List.mem_filter.2 ⟨hx, ?_⟩, hxd⟩⟩
        have hne : ¬ (x.owner = a.dst ∧ x.cookie.hash = a.hash) := by
          rintro ⟨-, hxh⟩
          have hbt : x.cookie.bt = e.bt := (h.alarms x hx).bt_eq hb heof (hxh.trans hhash)
          rw [← hxd, hbt] at hdead
          exact hdead helive
        exact decide_eq_true hne
      · exact .inr ⟨hdead, .inr hx⟩
    exact ⟨h.packets, fun x hx => h.alarms x (List.mem_filter.1 hx).1, h.ticks, hacks, h.delivered, h.done,
      fun d hd => (h.top d hd).imp_right (hkeep d), fun c hc d hd => (h.next c hc d hd).imp_right (hkeep d)⟩
  · exact ⟨h.packets, h.alarms, h.ticks, hacks, h.delivered, h.done, h.top, h.next⟩

/-- A message to a crashed process was not what a node was waiting for. -/
theorem Inv.packetLost {l r : List Packet} {p : Packet} (h : n.Inv live b D) (hp : n.packets = l ++ p :: r)
    (hl : ¬ live p.dst) : Inv live b { n with packets := l ++ r } D := by
  have hmem : p ∈ n.packets := by rw [hp]; exact List.mem_append_right _ List.mem_cons_self
  obtain ⟨-, hdst⟩ := h.packets p hmem
  have hkeep : ∀ d, n.Pending live d → Pending live { n with packets := l ++ r } d := by
    rintro d (⟨hlive, q, hq, hqd⟩ | hd)
    · rw [hp] at hq
      rcases mem_or_eq hq with rfl | hq
      · rw [hdst, hqd] at hl
        exact absurd hlive hl
      · exact .inl ⟨hlive, q, hq, hqd⟩
    · exact .inr hd
  refine ⟨?_, h.alarms, h.ticks, h.acks, h.delivered, h.done,
    fun d hd => (h.top d hd).imp_right (hkeep d), fun c hc d hd => (h.next c hc d hd).imp_right (hkeep d)⟩
  intro q hq
  exact h.packets q (by rw [hp]; exact mem_rest hq)

/-- An alarm that goes off is pending as a tick. -/
theorem Inv.expired {l r : List Timer} {a : Timer} (h : n.Inv live b D) (ha : n.alarms = l ++ a :: r) :
    Inv live b { n with alarms := l ++ r, ticks := n.ticks ++ [a] } D := by
  have hmem : a ∈ n.alarms := by rw [ha]; exact List.mem_append_right _ List.mem_cons_self
  have hkeep : ∀ d, n.Pending live d → Pending live { n with alarms := l ++ r, ticks := n.ticks ++ [a] } d := by
    rintro d (hd | ⟨hdead, ⟨x, hx, hxd⟩ | ⟨x, hx, hxd⟩⟩)
    · exact .inl hd
    · rw [ha] at hx
      rcases mem_or_eq hx with rfl | hx
      · exact .inr ⟨hdead, .inr ⟨x, List.mem_append_right _ (List.mem_singleton.2 rfl), hxd⟩⟩
      · exact .inr ⟨hdead, .inl ⟨x, hx, hxd⟩⟩
    · exact .inr ⟨hdead, .inr ⟨x, List.mem_append_left _ hx, hxd⟩⟩
  refine ⟨h.packets, ?_, ?_, h.acks, h.delivered, h.done,
    fun d hd => (h.top d hd).imp_right (hkeep d), fun c hc d hd => (h.next c hc d hd).imp_right (hkeep d)⟩
  · intro x hx
    exact h.alarms x (by rw [ha]; exact mem_rest hx)
  · intro x hx
    rcases List.mem_append.1 hx with hx | hx
    · exact h.ticks x hx
    · obtain rfl := List.mem_singleton.1 hx
      exact h.alarms x hmem

/-- Every step keeps the invariant, for more nodes that are done. -/
theorem Inv.step {n' : Net} (hb : b.Distinct) (h : n.Inv live b D) (hs : Step live n n') : ∃ D', n'.Inv live b D' := by
  cases hs with
  | sendToChild hp hl => exact ⟨_, h.sendToChild hp hl⟩
  | packetLost hp hl => exact ⟨D, h.packetLost hp hl⟩
  | sendToChildAck ha _ => exact ⟨D, h.sendToChildAck hb ha⟩
  | ackLost ha _ =>
    refine ⟨D, h.packets, h.alarms, h.ticks, ?_, h.delivered, h.done, h.top, h.next⟩
    intro x hx
    exact h.acks x (by rw [ha]; exact mem_rest hx)
  | expired ha _ => exact ⟨D, h.expired ha⟩
  | tickAlarm ha _ => exact ⟨_, h.tickAlarm ha⟩

theorem Inv.run {n' : Net} (hb : b.Distinct) (h : ∃ D, n.Inv live b D) (hr : Run live n n') : ∃ D', n'.Inv live b D' := by
  induction hr with
  | refl => exact h
  | tail _ hs ih =>
    obtain ⟨D, hD⟩ := ih
    exact hD.step hb hs

/-- The broadcast begins with the messages to the children of the root. -/
theorem inv_broadcastMessage : (broadcastMessage me b {}).Inv live b fun _ => False := by
  have hnil {α : Type} {x : α} {P : Prop} (hx : x ∈ ([] : List α)) : P := absurd hx List.not_mem_nil
  change (Net.sends b me b.nodes b.route {}).Inv live b fun _ => False
  constructor
  · intro p hp
    rcases mem_sends_packets.1 hp with hp | ⟨it, hit, rfl⟩
    · exact hnil hp
    · exact ⟨of_msgFor (Rose.mem_beneath_of_mem_children hit), rfl⟩
  · intro a ha
    rcases mem_sends_alarms.1 ha with ha | ⟨it, hit, rfl⟩
    · exact hnil ha
    · exact of_msgFor (Rose.mem_beneath_of_mem_children hit)
  · exact fun a ha => hnil ha
  · exact fun a ha => hnil ha
  · exact fun a ha => hnil ha
  · exact fun d hd => hd.elim
  · exact fun d hd => .inr (pending_sends hd)
  · exact fun c hc => hc.elim

/-- When nothing is pending the broadcast is done with the whole tree. -/
theorem Inv.all_done (h : n.Inv live b D) (hq : n.Quiet) : ∀ x ∈ b.nodes.beneath, D x := by
  have hnone : ∀ d, ¬ n.Pending live d := by
    rintro d (⟨-, p, hp, -⟩ | ⟨-, ⟨a, ha, -⟩ | ⟨a, ha, -⟩⟩)
    · rw [hq.packets] at hp
      exact List.not_mem_nil hp
    · rw [hq.alarms] at ha
      exact List.not_mem_nil ha
    · rw [hq.ticks] at ha
      exact List.not_mem_nil ha
  exact Rose.beneath_induct (fun d hd => (h.top d hd).resolve_right (hnone d))
    fun c _ hc d hd => (h.next c hc d hd).resolve_right (hnone d)

end Net

/-! ## The claim -/

/-- A broadcast over a tree of nodes with different names: when nothing is in flight or pending any more, every live node has
handed the message to the service it is for; and no process ever hands over anything else. -/
theorem broadcast_delivered {nodes : List NodeElement} {live : String → Prop} {me : String} {b : BroadcastMessage} {n : Net}
    (ht : buildTree nodes = .ok b.nodes) (hn : (nodes.map NodeElement.name).Nodup)
    (hr : Net.Run live (Net.broadcastMessage me b {}) n) :
    (n.Quiet → ∀ x ∈ nodes, live x.ip → ∃ d ∈ n.delivered, d.ip = x.ip ∧ d.Of b) ∧
      ∀ d ∈ n.delivered, live d.ip ∧ d.Of b := by
  have hperm := perm_buildTree ht
  have hb : b.Distinct := ((hperm.map NodeElement.name).nodup_iff).2 hn
  obtain ⟨D, h⟩ := Net.Inv.run hb ⟨_, Net.inv_broadcastMessage⟩ hr
  refine ⟨?_, h.delivered⟩
  intro hq x hx hlive
  obtain ⟨d, hd, rfl⟩ := List.mem_map.1 (hperm.mem_iff.2 hx)
  obtain ⟨y, hy, hyd⟩ := h.done d (h.all_done hq d hd) hlive
  exact ⟨y, hy, hyd, (h.delivered y hy).2⟩

/-- Three nodes, of which `c` stands below `a`. -/
def threeNodes : List NodeElement := [{ name := "a", ip := "1" }, { name := "b", ip := "2" }, { name := "c", ip := "3" }]

/-- A broadcast to them, by a process that is none of them. -/
def toThreeNodes : BroadcastMessage where
  dstService := .node
  nodeSigner := "o"
  nodeStartTimestamp := 5
  nodes := buildLoop threeNodes [[]] (.mk { name := "fake" } [])
  seqId := 1
  signaturePl := "s"
  msg := "m"
  route := [.localService .node]

/-- The node `a` is crashed: `c` gets the message from the process that waited for `a`. -/
theorem broadcast_delivered_sample : ∃ n : Net, n.Quiet ∧ ∃ d ∈ n.delivered, d.ip = "3" ∧ d.Of toThreeNodes := by
  let live : String → Prop := fun ip => ip ≠ "1"
  have h0 : Net.Run live (Net.broadcastMessage "4" toThreeNodes {}) (Net.broadcastMessage "4" toThreeNodes {}) := .refl
  -- the messages to `a` and `b`
  have h1 := h0.tail (.packetLost (l := []) rfl (by decide))
  have h2 := h1.tail (.sendToChild (l := []) rfl (by decide))
  have h3 := h2.tail (.sendToChildAck (l := []) rfl (by decide))
  -- the alarms for both, and the message to `c`
  have h4 := h3.tail (.expired (l := []) rfl (by decide))
  have h5 := h4.tail (.expired (l := []) rfl (by decide))
  have h6 := h5.tail (.tickAlarm (l := []) rfl (by decide))
  have h7 := h6.tail (.tickAlarm (l := []) rfl (by decide))
  have h8 := h7.tail (.sendToChild (l := []) rfl (by decide))
  have h9 := h8.tail (.sendToChildAck (l := []) rfl (by decide))
  have h10 := h9.tail (.expired (l := []) rfl (by decide))
  have h11 := h10.tail (.tickAlarm (l := []) rfl (by decide))
  have hrun : ∃ n : Net, Net.Run live (Net.broadcastMessage "4" toThreeNodes {}) n ∧ n.Quiet :=
    ⟨_, h11, rfl, rfl, rfl, rfl⟩
  obtain ⟨n, hr, hq⟩ := hrun
  have hnodes : buildTree threeNodes = .ok toThreeNodes.nodes := rfl
  have h := (broadcast_delivered hnodes (by decide) hr).1 hq { name := "c", ip := "3" } (by decide) (by decide)
  exact ⟨n, hq, h⟩

end Grain
