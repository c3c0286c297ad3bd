import Grain.Lemmas.Rpc

/-!
# Requests and answers between instances

Whatever the order in which instances send, connect, lose connections and answer: what is sent to an address is given to the
services there in order, and nothing twice (`run_inbox`); what is passed back over a connection comes back the same way
(`run_answers`); and an answer that is passed back on the route of a request reaches the service that asked, with the rest of its
route (`run_replies`).
-/

namespace Grain

namespace Rpc

open RouteT (CInt SocketId Route)

variable {host : Addr → Nat} {n n' : Net}

theorem run_append (host : Addr → Nat) (l : List Step) (s : Step) : run host (l ++ [s]) = s.run host (run host l) := by
  simp [run]

theorem run_good (host : Addr → Nat) (steps : List Step) : Good host (run host steps) := by
  induction steps using List.reverseRecOn with
  | nil => exact good_init
  | append_singleton l s ih =>
    rw [run_append]
    exact ih.step s

namespace Sample

/-- All addresses are of one instance. -/
def oneHost : Addr → Nat := fun _ => 1

theorem inI32_client : InI32 7 := by
  unfold InI32
  decide

def client : CInt := ⟨7, inI32_client⟩

theorem inI32_server : InI32 9 := by
  unfold InI32
  decide

def server : CInt := ⟨9, inI32_server⟩

theorem inI64_k : InI64 3 := by
  unfold InI64
  decide

def k : SocketId := ⟨3, inI64_k⟩

theorem inI64_j : InI64 4 := by
  unfold InI64
  decide

def j : SocketId := ⟨4, inI64_j⟩

def request : Event := ⟨"request", [.localService client]⟩

def answered : Event := ⟨"answer", [.localService client, .remoteAddr j]⟩

/-- A request is sent before there is a connection, and arrives. -/
def asking : List Step := [.send 0 5 server request k, .accept 0 k j, .connected 0 k, .deliver 0 k]

/-- The answer arrives too. -/
def steps : List Step := asking ++ [.pass 1 answered, .answer 0 k]

def asked : Conn where
  addr := 5
  peer := some j
  up := true
  serverOpen := true
  sent := [(server, request)]
  inbox := [⟨server, j, none, ⟨"request", [.localService client, .remoteAddr j, .localService server]⟩⟩]

def given : Conn := { asked with answers := [⟨client, k, some 5, ⟨"answer", []⟩⟩] }

theorem conns_asking : (run oneHost asking).conns 0 k = some asked := by rfl

theorem conns_steps : (run oneHost steps).conns 0 k = some given := by rfl

end Sample

/-! ## What was sent stays -/

/-- Every connection is still there, with all that it had. -/
def Grows (n n' : Net) : Prop :=
  ∀ x y c, n.conns x y = some c → ∃ c', n'.conns x y = some c' ∧ c'.addr = c.addr ∧ (∀ j, c.peer = some j → c'.peer = some j) ∧
    c.sent <+: c'.sent

namespace Grows

theorem refl (n : Net) : Grows n n := fun _ _ c hc => ⟨c, hc, rfl, fun _ hj => hj, List.prefix_refl _⟩

theorem trans {n m l : Net} (h : Grows n m) (h' : Grows m l) : Grows n l := by
  intro x y c hc
  obtain ⟨c1, h1, h2, h3, h4⟩ := h x y c hc
  obtain ⟨c2, g1, g2, g3, g4⟩ := h' x y c1 h1
  exact ⟨c2, g1, g2.trans h2, fun j hj => g3 j (h3 j hj), h4.trans g4⟩

/-- A connection changes. -/
theorem setConn {a : Nat} {k : SocketId} {c d : Conn} (hc : n.conns a k = some c) (haddr : d.addr = c.addr)
    (hp : ∀ j, c.peer = some j → d.peer = some j) (hs : c.sent <+: d.sent) : Grows n (n.setConn a k d) := by
  intro x y q hq
  rw [setConn_conns]
  split
  · rename_i he
    obtain ⟨rfl, rfl⟩ := he
    rw [hc] at hq
    cases hq
    exact ⟨d, rfl, haddr, hp, hs⟩
  · exact ⟨q, hq, rfl, fun _ hj => hj, List.prefix_refl _⟩

/-- A connection is new. -/
theorem newConn {a : Nat} {k : SocketId} (d : Conn) (hc : n.conns a k = none) : Grows n (n.setConn a k d) := by
  intro x y q hq
  rw [setConn_conns]
  split
  · rename_i he
    obtain ⟨rfl, rfl⟩ := he
    rw [hc] at hq
    cases hq
  · exact ⟨q, hq, rfl, fun _ hj => hj, List.prefix_refl _⟩

theorem transmit (n : Net) (a : Nat) (k : SocketId) (p : Packet) : Grows n (n.transmit a k p) := by
  unfold Net.transmit
  split
  · rename_i c hc
    split
    · exact setConn hc rfl (fun _ hj => hj) (List.prefix_refl _)
    · exact refl n
  · split
    · split
      · rename_i c hc
        split
        · exact setConn hc rfl (fun _ hj => hj) (List.prefix_refl _)
        · exact refl n
      · exact refl n
    · exact refl n

end Grows

/-- No connection is asked for. -/
def Quiet (outs : List Out) : Prop := ∀ k addr, Out.connect k addr ∉ outs

theorem Quiet.append {l l' : List Out} (h : Quiet l) (h' : Quiet l') : Quiet (l ++ l') := by
  intro k addr hm
  rcases List.mem_append.1 hm with hm | hm
  · exact h k addr hm
  · exact h' k addr hm

theorem quiet_notices (s : Sessions) (x : Notice) : Quiet (s.notices x) := by
  intro k addr hm
  obtain ⟨r, -, hr⟩ := List.mem_map.1 hm
  cases hr

theorem quiet_flushOutCache (S : Session) : Quiet S.flushOutCache.1 := by
  intro k addr hm
  unfold Session.flushOutCache at hm
  split at hm
  · obtain ⟨p, -, hp⟩ := List.mem_map.1 hm
    cases hp
  · cases hm

theorem quiet_addSendPacket (S : Session) (p : Packet) : Quiet (S.addSendPacket p).1 := by
  unfold Session.addSendPacket
  split
  · intro k addr hm
    cases hm
  · refine (quiet_flushOutCache S).append fun k addr hm => ?_
    simp at hm

theorem quiet_addAll (ps : List Packet) (S : Session) : Quiet (Session.addAll ps S).1 := by
  induction ps generalizing S with
  | nil =>
    intro k addr hm
    cases hm
  | cons p ps ih => exact (quiet_addSendPacket S p).append (ih _)

theorem quiet_onPassPacket (s : Sessions) (k : SocketId) (e : Event) : Quiet (s.onPassPacket k e).1 := by
  unfold Sessions.onPassPacket
  split
  · exact quiet_addSendPacket _ _
  · intro k addr hm
    cases hm

theorem quiet_onConnected (s : Sessions) (k : SocketId) (addr : Addr) : Quiet (s.onConnected k addr).1 := by
  unfold Sessions.onConnected
  split
  · intro k addr hm
    cases hm
  · exact (quiet_notices _ _).append (quiet_flushOutCache _)

/-- What a service sends leaves the connections, if it asks for none. -/
theorem grows_foldl (a : Nat) {outs : List Out} (h : Quiet outs) (n : Net) : Grows n (outs.foldl (Net.effect a) n) := by
  induction outs generalizing n with
  | nil => exact .refl n
  | cons o outs ih =>
    have hrest := ih (fun k addr hm => h k addr (List.mem_cons_of_mem _ hm)) (Net.effect a n o)
    refine Grows.trans ?_ hrest
    rcases o with ⟨k, addr⟩ | ⟨k, p⟩ | i | ⟨x, r⟩ | k
    case connect => exact absurd (List.mem_cons_self ..) (h k addr)
    case sendPacket => exact .transmit n a k p
    all_goals exact .refl n

theorem Grows.apply (h : Grows n n') (a : Nat) {r : List Out × Sessions} (hq : Quiet r.1) : Grows n (n'.apply a r) :=
  h.trans (grows_foldl a hq (n'.setSessions a r.2))

namespace Good

theorem grows_send (h : Good host n) (a : Nat) (addr : Addr) (dst : CInt) (e : Event) (newId : SocketId) :
    Grows n ((Step.send a addr dst e newId).run host n) := by
  by_cases hu : n.used a newId = true
  · simpa [Step.run, hu] using Grows.refl n
  have hfree : n.conns a newId = none := h.forward.fresh a newId (by simpa using hu)
  have happly : Grows n ((n.use a newId).apply a ((n.sessions a).onSendPacket addr dst e newId)) := by
    unfold Sessions.onSendPacket
    split
    · have huse : Grows n (n.use a newId) := fun x y c hc => Grows.refl n x y c hc
      exact huse.apply a (quiet_addSendPacket _ _)
    · rw [Net.apply, List.foldl_cons]
      refine Grows.trans (m := n.setConn a newId { addr := addr }) (.newConn { addr := addr } hfree) fun x y c hc => ?_
      exact grows_foldl a (quiet_addSendPacket _ _) _ x y c hc
  simp only [Step.run, hu, Bool.false_eq_true, if_false]
  refine happly.trans ?_
  split
  · split
    · rename_i c hc
      exact .setConn hc rfl (fun _ hj => hj) (List.prefix_append _ _)
    · exact .refl _
  · exact .refl _

/-- A step leaves every connection, with all that was sent over it. -/
theorem grows (h : Good host n) (s : Step) : Grows n (s.run host n) := by
  cases s with
  | send a addr dst e newId => exact h.grows_send a addr dst e newId
  | pass b e =>
    simp only [Step.run]
    split
    · exact Grows.apply (.refl n) b (quiet_onPassPacket _ _ _)
    · exact .refl n
  | accept a k j =>
    simp only [Step.run]
    split
    · rename_i c hc
      split
      · exact .refl n
      · rename_i hn
        push Not at hn
        have hconn : Grows n (n.setConn a k { c with peer := some j, serverOpen := true }) := by
          refine .setConn hc rfl (fun i hi => ?_) (List.prefix_refl _)
          simp [hi] at hn
        refine Grows.apply ?_ _ ?_
        · exact fun x y q hq => hconn x y q hq
        · exact (quiet_addAll _ _).append (quiet_notices _ _)
    · exact .refl n
  | connected a k =>
    simp only [Step.run]
    split
    · rename_i c hc
      split
      · refine Grows.apply ?_ _ ?_
        · exact .setConn hc rfl (fun _ hj => hj) (List.prefix_refl _)
        · exact quiet_onConnected _ _ _
      · exact .refl n
    · exact .refl n
  | connectFailed a k =>
    simp only [Step.run]
    split
    · rename_i c hc
      split
      · refine Grows.apply ?_ _ ?_
        · exact .setConn hc rfl (fun _ hj => hj) (List.prefix_refl _)
        · exact quiet_notices _ _
      · exact .refl n
    · exact .refl n
  | deliver a k =>
    rcases hc : n.conns a k with _ | c
    · simpa only [Step.run, hc] using Grows.refl n
    · simp only [Step.run, hc]
      repeat' split
      all_goals first
        | exact .refl n
        | exact .setConn hc rfl (fun _ hj => hj) (List.prefix_refl _)
  | answer a k =>
    rcases hc : n.conns a k with _ | c
    · simpa only [Step.run, hc] using Grows.refl n
    · simp only [Step.run, hc]
      repeat' split
      all_goals first
        | exact .refl n
        | exact .setConn hc rfl (fun _ hj => hj) (List.prefix_refl _)
  | disconnected a k =>
    simp only [Step.run]
    split
    · rename_i c hc
      split
      · refine Grows.apply ?_ _ ?_
        · exact .setConn hc rfl (fun _ hj => hj) (List.prefix_refl _)
        · exact quiet_notices _ _
      · exact .refl n
    · exact .refl n
  | disaccepted a k =>
    simp only [Step.run]
    split
    · rename_i c hc
      split
      · split
        · refine Grows.apply ?_ _ ?_
          · exact .setConn hc rfl (fun _ hj => hj) (List.prefix_refl _)
          · exact quiet_notices _ _
        · exact .refl n
      · exact .refl n
    · exact .refl n
  | subscribe a route => exact fun x y c hc => Grows.refl n x y c hc
  | unsubscribe a route => exact fun x y c hc => Grows.refl n x y c hc
  | bound a =>
    simp only [Step.run, h.flushAll a]
    exact fun x y c hc => Grows.refl n x y c hc

end Good

/-! ## The way back -/

/-- The event goes back on the route of one that a service of the instance was given on an accepted connection. -/
def Replies (host : Addr → Nat) (n : Net) (b : Nat) (e : Event) : Prop :=
  ∃ a k c i, n.conns a k = some c ∧ host c.addr = b ∧ i ∈ c.inbox ∧ e.route = i.e.route.dropLast

/-- Every event that was passed to a socket has the route of one that was sent over its connection. -/
def Asked (host : Addr → Nat) (n : Net) : Prop :=
  ∀ b j e, e ∈ n.passed b j → ∃ a k c x, n.conns a k = some c ∧ c.peer = some j ∧ host c.addr = b ∧ x ∈ c.sent ∧ x.2.route = e.route

theorem Asked.grows (h : Asked host n) (hg : Grows n n') (hp : n'.passed = n.passed) : Asked host n' := by
  intro b j e he
  rw [hp] at he
  obtain ⟨a, k, c, x, h1, h2, h3, h4, h5⟩ := h b j e he
  obtain ⟨c', g1, g2, g3, g4⟩ := hg a k c h1
  exact ⟨a, k, c', x, g1, g3 j h2, by rw [g2, h3], g4.subset h4, h5⟩

/-- An event of an inbox has the route of the request, the socket and the service. -/
theorem mem_inbox (h : Good host n) {a : Nat} {k : SocketId} {c : Conn} (hc : n.conns a k = some c) {i : Incoming}
    (hi : i ∈ c.inbox) :
    ∃ j x, c.peer = some j ∧ x ∈ c.sent ∧ i.e.route = x.2.route ++ [.remoteAddr j, .localService x.1] := by
  obtain ⟨w, got, g1, g2, g3⟩ := h.forward.fwd hc
  rw [g2, List.mem_filterMap] at hi
  obtain ⟨x, hx, hxi⟩ := hi
  rcases hj : c.peer with _ | j
  · rw [g3 hj] at hx
    cases hx
  rw [hj] at hxi
  refine ⟨j, x, rfl, ?_, ?_⟩
  · have hmem : sendP x ∈ c.sent.map sendP := by
      rw [g1]
      exact List.mem_append_left _ (List.mem_append_left _ (List.mem_map_of_mem hx))
    obtain ⟨y, hy, hyx⟩ := List.mem_map.1 hmem
    exact sendP_injective hyx ▸ hy
  · simp only [arrive, sendP, onPacket] at hxi
    split at hxi
    · rename_i hin
      split at hin
      · cases hin
        cases hxi
        rfl
      · cases hin
    · cases hxi

/-- Every step but a reply leaves what was passed. -/
theorem passed_run (s : Step) (h : ∀ b e, s ≠ .pass b e) : (s.run host n).passed = n.passed := by
  cases s with
  | pass b e => exact absurd rfl (h b e)
  | _ =>
    simp only [Step.run]
    repeat' split
    all_goals simp [Net.setConn, Net.use, Net.setSessions]

theorem Asked.pass (h : Asked host n) (hg : Good host n) {b : Nat} {e : Event} (hr : Replies host n b e) :
    Asked host ((Step.pass b e).run host n) := by
  obtain ⟨a, k, c, i, hc, rfl, hi, hroute⟩ := hr
  obtain ⟨j, x, hj, hx, hix⟩ := mem_inbox hg hc hi
  have hroute' : e.route = x.2.route ++ [.remoteAddr j] := by
    rw [hroute, hix]
    simp
  have hgrow := hg.grows (.pass (host c.addr) e)
  intro b' j' e' he'
  simp only [Step.run, hroute', List.getLast?_append, List.getLast?_singleton, Option.some_or, apply_passed, upd] at he'
  split at he'
  · rename_i hbj
    obtain ⟨rfl, rfl⟩ := hbj
    rcases List.mem_append.1 he' with he' | he'
    · obtain ⟨a1, k1, c1, x1, h1, h2, h3, h4, h5⟩ := h _ _ _ he'
      obtain ⟨c', g1, g2, g3, g4⟩ := hgrow a1 k1 c1 h1
      exact ⟨a1, k1, c', x1, g1, g3 _ h2, by rw [g2, h3], g4.subset h4, h5⟩
    · obtain ⟨c', g1, g2, g3, g4⟩ := hgrow a k c hc
      refine ⟨a, k, c', x, g1, g3 _ hj, by rw [g2], g4.subset hx, ?_⟩
      rw [List.mem_singleton.1 he']
      simp
  · obtain ⟨a1, k1, c1, x1, h1, h2, h3, h4, h5⟩ := h _ _ _ he'
    obtain ⟨c', g1, g2, g3, g4⟩ := hgrow a1 k1 c1 h1
    exact ⟨a1, k1, c', x1, g1, g3 _ h2, by rw [g2, h3], g4.subset h4, h5⟩

theorem run_asked (host : Addr → Nat) (steps : List Step)
    (h : ∀ l b e l', steps = l ++ .pass b e :: l' → Replies host (run host l) b e) : Asked host (run host steps) := by
  induction steps using List.reverseRecOn with
  | nil =>
    intro b j e he
    cases he
  | append_singleton l s ih =>
    have hl := ih fun m b e m' hm => h m b e (m' ++ [s]) (by rw [hm]; simp)
    have hg := run_good host l
    rw [run_append]
    by_cases hs : ∃ b e, s = .pass b e
    · obtain ⟨b, e, rfl⟩ := hs
      exact hl.pass hg (h l b e [] rfl)
    · push Not at hs
      exact hl.grows (hg.grows s) (passed_run s hs)

/-- If services answer on the routes that they were given, then what an instance is given on a connection that it asked for goes to
a service that has sent a request over this connection: the route is that of the request, without the service. -/
theorem run_replies (host : Addr → Nat) (steps : List Step)
    (h : ∀ l b e l', steps = l ++ .pass b e :: l' → Replies host (run host l) b e) (a : Nat) (k : SocketId) (c : Conn)
    (hc : (run host steps).conns a k = some c) (r : Incoming) (hr : r ∈ c.answers) :
    ∃ x ∈ c.sent, x.2.route = r.e.route ++ [.localService r.dst] := by
  have hgood := run_good host steps
  rcases hj : c.peer with _ | j
  · rw [(hgood.backward.early a k c hc hj).2] at hr
    cases hr
  obtain ⟨got, rest, h1, h2, -⟩ := hgood.backward.back a k c j hc hj
  rw [h2, List.mem_filterMap] at hr
  obtain ⟨e, he, her⟩ := hr
  obtain ⟨a', k', c', x, g1, g2, g3, g4, g5⟩ := run_asked host steps h (host c.addr) j e
      (by rw [h1]; exact List.mem_append_left _ he)
  -- the socket was accepted for this connection alone
  have hp := hgood.backward.peers a' k' c' j g1 g2
  rw [g3, hgood.backward.peers a k c j hc hj] at hp
  cases hp
  rw [hc] at g1
  cases g1
  refine ⟨x, g4, ?_⟩
  rw [g5]
  simp only [arriveBack, onPacket] at her
  split at her
  · rename_i hin
    split at hin
    · split at hin
      · rename_i id hlast
        cases hin
        cases her
        exact (List.dropLast_append_getLast? _ hlast).symm
      · cases hin
    · cases hin
  · cases her

/-- The one reply goes back on the route of the request. -/
theorem Sample.replies : ∀ l b e l', Sample.steps = l ++ .pass b e :: l' → Replies Sample.oneHost (run Sample.oneHost l) b e := by
  intro l b e l' hl
  obtain ⟨rfl, rfl, rfl⟩ : l = Sample.asking ∧ b = 1 ∧ e = Sample.answered := by
    rcases l with _ | ⟨_, _ | ⟨_, _ | ⟨_, _ | ⟨_, _ | ⟨_, _ | ⟨_, l⟩⟩⟩⟩⟩⟩ <;> simp_all [Sample.steps, Sample.asking]
  exact ⟨0, Sample.k, Sample.asked, _, Sample.conns_asking, rfl, List.mem_singleton.2 rfl, rfl⟩

theorem run_replies_sample : ∃ x ∈ Sample.given.sent, x.2.route = [] ++ [.localService Sample.client] :=
  run_replies Sample.oneHost Sample.steps Sample.replies 0 Sample.k Sample.given Sample.conns_steps
    ⟨Sample.client, Sample.k, some 5, ⟨"answer", []⟩⟩ (List.mem_singleton.2 rfl)

end Rpc

end Grain
