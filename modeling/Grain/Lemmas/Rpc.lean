import Grain.Rpc

/-!
# Instances that send each other events

What holds of the network between steps: the sessions by address are those of the open connections and keep back what is not yet on
the way (`Forward`); the sessions by socket are those of the accepted sockets and keep back nothing (`Backward`).
-/

namespace Grain

namespace Rpc

open RouteT (CInt SocketId Route)

variable {host : Addr → Nat} {n n' : Net}

/-! ## Assignments -/

@[simp] theorem setConn_conns (n : Net) (a : Nat) (k : SocketId) (c : Conn) (x : Nat) (y : SocketId) :
    (n.setConn a k c).conns x y = if x = a ∧ y = k then some c else n.conns x y := rfl

@[simp] theorem setConn_sessions (n : Net) (a : Nat) (k : SocketId) (c : Conn) : (n.setConn a k c).sessions = n.sessions := rfl

@[simp] theorem setConn_used (n : Net) (a : Nat) (k : SocketId) (c : Conn) : (n.setConn a k c).used = n.used := rfl

@[simp] theorem setConn_accepted (n : Net) (a : Nat) (k : SocketId) (c : Conn) : (n.setConn a k c).accepted = n.accepted := rfl

@[simp] theorem setConn_passed (n : Net) (a : Nat) (k : SocketId) (c : Conn) : (n.setConn a k c).passed = n.passed := rfl

@[simp] theorem setSessions_sessions (n : Net) (a : Nat) (s : Sessions) (x : Nat) :
    (n.setSessions a s).sessions x = if x = a then s else n.sessions x := rfl

@[simp] theorem setSessions_conns (n : Net) (a : Nat) (s : Sessions) : (n.setSessions a s).conns = n.conns := rfl

@[simp] theorem setSessions_used (n : Net) (a : Nat) (s : Sessions) : (n.setSessions a s).used = n.used := rfl

@[simp] theorem setSessions_accepted (n : Net) (a : Nat) (s : Sessions) : (n.setSessions a s).accepted = n.accepted := rfl

@[simp] theorem setSessions_passed (n : Net) (a : Nat) (s : Sessions) : (n.setSessions a s).passed = n.passed := rfl

@[simp] theorem use_used (n : Net) (a : Nat) (k : SocketId) (x : Nat) (y : SocketId) :
    (n.use a k).used x y = if x = a ∧ y = k then true else n.used x y := rfl

@[simp] theorem use_conns (n : Net) (a : Nat) (k : SocketId) : (n.use a k).conns = n.conns := rfl

@[simp] theorem use_sessions (n : Net) (a : Nat) (k : SocketId) : (n.use a k).sessions = n.sessions := rfl

@[simp] theorem use_accepted (n : Net) (a : Nat) (k : SocketId) : (n.use a k).accepted = n.accepted := rfl

@[simp] theorem use_passed (n : Net) (a : Nat) (k : SocketId) : (n.use a k).passed = n.passed := rfl

/-- The sessions by address after an assignment. -/
theorem insert_sa2sess (n : Net) (a : Nat) (addr : Addr) (S : Session) (x : Nat) (y : Addr) :
    ((n.setSessions a { n.sessions a with sa2sess := (n.sessions a).sa2sess.insert addr S }).sessions x).sa2sess[y]? =
      if x = a ∧ y = addr then some S else (n.sessions x).sa2sess[y]? := by
  by_cases hx : x = a
  · subst hx
    by_cases hy : addr = y
    · simp [hy]
    · have hy' : ¬ y = addr := fun he => hy he.symm
      simp [StdMap.getElem?_insert, hy, hy']
  · simp [hx]

/-- The sessions by address when one is dropped. -/
theorem erase_sa2sess (n : Net) (a : Nat) (addr : Addr) (x : Nat) (y : Addr) :
    ((n.setSessions a { n.sessions a with sa2sess := (n.sessions a).sa2sess.erase addr }).sessions x).sa2sess[y]? =
      if x = a ∧ y = addr then none else (n.sessions x).sa2sess[y]? := by
  by_cases hx : x = a
  · subst hx
    by_cases hy : addr = y
    · simp [hy]
    · have hy' : ¬ y = addr := fun he => hy he.symm
      simp [StdMap.getElem?_erase, hy, hy']
  · simp [hx]

theorem setConn_setConn (n : Net) (a : Nat) (k : SocketId) (c c' : Conn) : (n.setConn a k c).setConn a k c' = n.setConn a k c' := by
  unfold Net.setConn
  congr 1
  funext x y
  by_cases h : x = a ∧ y = k <;> simp [upd, h]

theorem setConn_self {a : Nat} {k : SocketId} {c : Conn} (h : n.conns a k = some c) : n.setConn a k c = n := by
  unfold Net.setConn
  congr 1
  funext x y
  by_cases he : x = a ∧ y = k
  · obtain ⟨rfl, rfl⟩ := he
    simp [upd, h]
  · simp [upd, he]

/-! ## What a service sends -/

/-- Notices have no effect on the connections. -/
theorem foldl_notices (s : Sessions) (x : Notice) (a : Nat) (n : Net) : (s.notices x).foldl (Net.effect a) n = n := by
  unfold Sessions.notices
  induction s.subscribers with
  | nil => rfl
  | cons r l ih => exact ih

/-- Packets on a connection that the instance has asked for. -/
theorem foldl_client {a : Nat} {k : SocketId} {c : Conn} (h : n.conns a k = some c) (ho : c.clientOpen = true) (ps : List Packet) :
    (ps.map (Out.sendPacket k)).foldl (Net.effect a) n = n.setConn a k { c with ab := c.ab ++ ps } := by
  induction ps generalizing n c with
  | nil =>
    rw [List.append_nil]
    exact (setConn_self h).symm
  | cons p ps ih =>
    have hstep : Net.effect a n (.sendPacket k p) = n.setConn a k { c with ab := c.ab ++ [p] } := by
      simp [Net.effect, Net.transmit, h, ho]
    rw [List.map_cons, List.foldl_cons, hstep, ih (c := { c with ab := c.ab ++ [p] }) (by simp) ho, setConn_setConn]
    simp

/-- Packets on a connection that the instance has accepted. -/
theorem foldl_server {a b : Nat} {j k : SocketId} {c : Conn} (hn : n.conns b j = none) (hacc : n.accepted b j = some (a, k))
    (h : n.conns a k = some c) (ho : c.serverOpen = true) (ps : List Packet) :
    (ps.map (Out.sendPacket j)).foldl (Net.effect b) n = n.setConn a k { c with ba := c.ba ++ ps } := by
  induction ps generalizing n c with
  | nil =>
    rw [List.append_nil]
    exact (setConn_self h).symm
  | cons p ps ih =>
    have hstep : Net.effect b n (.sendPacket j p) = n.setConn a k { c with ba := c.ba ++ [p] } := by
      simp [Net.effect, Net.transmit, hn, hacc, h, ho]
    have hne : ¬ (b = a ∧ j = k) := by
      rintro ⟨rfl, rfl⟩
      rw [hn] at h
      cases h
    have hrest := ih (n := n.setConn a k { c with ba := c.ba ++ [p] }) (c := { c with ba := c.ba ++ [p] }) (by simp [hne, hn]) hacc
      (by simp) ho
    rw [List.map_cons, List.foldl_cons, hstep, hrest, setConn_setConn]
    simp

theorem effect_kept (a : Nat) (n : Net) (o : Out) :
    (Net.effect a n o).used = n.used ∧ (Net.effect a n o).accepted = n.accepted ∧ (Net.effect a n o).passed = n.passed ∧
      (Net.effect a n o).sessions = n.sessions := by
  rcases o with ⟨k, addr⟩ | ⟨k, p⟩ | i | ⟨x, r⟩ | k
  case sendPacket =>
    simp only [Net.effect, Net.transmit]
    repeat' split
    all_goals exact ⟨rfl, rfl, rfl, rfl⟩
  all_goals exact ⟨rfl, rfl, rfl, rfl⟩

/-- What a service sends changes nothing but the connections. -/
theorem foldl_kept (a : Nat) (outs : List Out) (n : Net) :
    (outs.foldl (Net.effect a) n).used = n.used ∧ (outs.foldl (Net.effect a) n).accepted = n.accepted ∧
      (outs.foldl (Net.effect a) n).passed = n.passed ∧ (outs.foldl (Net.effect a) n).sessions = n.sessions := by
  induction outs generalizing n with
  | nil => exact ⟨rfl, rfl, rfl, rfl⟩
  | cons o outs ih =>
    obtain ⟨h1, h2, h3, h4⟩ := ih (Net.effect a n o)
    obtain ⟨g1, g2, g3, g4⟩ := effect_kept a n o
    exact ⟨h1.trans g1, h2.trans g2, h3.trans g3, h4.trans g4⟩

@[simp] theorem apply_passed (n : Net) (a : Nat) (r : List Out × Sessions) : (n.apply a r).passed = n.passed :=
  (foldl_kept a r.1 (n.setSessions a r.2)).2.2.1

theorem addAll_connected {S : Session} {k : SocketId} (he : S.esi = some k) (ho : S.outCache = []) (ps : List Packet) :
    Session.addAll ps S = (ps.map (.sendPacket k), S) := by
  obtain ⟨i, e, o⟩ := S
  obtain rfl : e = some k := he
  obtain rfl : o = [] := ho
  induction ps with
  | nil => rfl
  | cons p ps ih => simp [Session.addAll, Session.addSendPacket, Session.flushOutCache, ih]

/-! ## From the one that asks -/

/-- The packet of a request. -/
def sendP (x : CInt × Event) : Packet := .send x.1 x.2

theorem sendP_injective : Function.Injective sendP := by
  rintro ⟨d, e⟩ ⟨d', e'⟩ h
  simpa [sendP] using h

/-- What a service is given when the packet of a request arrives, if it can be unpacked. -/
def arrive : Option SocketId → CInt × Event → Option Incoming
  | some j, x =>
    match onPacket j none (sendP x) with
    | .incoming i => some i
    | _ => none
  | none, _ => none

/-- What was sent is what was taken off, what is on the way and what waits in the session. -/
def Conn.Fwd (c : Conn) (w : List Packet) : Prop :=
  ∃ got : List (CInt × Event), c.sent.map sendP = got.map sendP ++ c.ab ++ w ∧ c.inbox = got.filterMap (arrive c.peer) ∧
    (c.peer = none → got = [])

/-- The sessions are those of the open connections, and what they keep back is what is not yet on the way. -/
structure Forward (n : Net) : Prop where
  session : ∀ a addr S, (n.sessions a).sa2sess[addr]? = some S → ∃ c, n.conns a S.socketId = some c ∧ c.addr = addr ∧
    c.clientOpen = true ∧ S.esi = (if c.up then some S.socketId else none) ∧ (c.up = true → S.outCache = []) ∧ c.Fwd S.outCache
  conn : ∀ a k c, n.conns a k = some c →
    (c.clientOpen = true ∧ ∃ S, (n.sessions a).sa2sess[c.addr]? = some S ∧ S.socketId = k) ∨ (c.clientOpen = false ∧ ∃ w, c.Fwd w)
  fresh : ∀ a k, n.used a k = false → n.conns a k = none

namespace Forward

/-- The session of an open connection. -/
theorem current (h : Forward n) {a : Nat} {k : SocketId} {c : Conn} (hc : n.conns a k = some c) (ho : c.clientOpen = true) :
    ∃ S, (n.sessions a).sa2sess[c.addr]? = some S ∧ S.socketId = k ∧ S.esi = (if c.up then some k else none) ∧
      (c.up = true → S.outCache = []) ∧ c.Fwd S.outCache := by
  rcases h.conn a k c hc with ⟨-, S, hS, rfl⟩ | ⟨hf, -⟩
  · obtain ⟨c', hc', -, -, h1, h2, h3⟩ := h.session a _ S hS
    rw [hc] at hc'
    cases hc'
    exact ⟨S, hS, rfl, h1, h2, h3⟩
  · rw [ho] at hf
    cases hf

theorem fwd (h : Forward n) {a : Nat} {k : SocketId} {c : Conn} (hc : n.conns a k = some c) : ∃ w, c.Fwd w := by
  rcases h.conn a k c hc with ⟨ho, -⟩ | ⟨-, hw⟩
  · obtain ⟨S, -, -, -, -, hf⟩ := h.current hc ho
    exact ⟨_, hf⟩
  · exact hw

/-- One connection and the session for its address change. -/
theorem change (h : Forward n) {a : Nat} {k : SocketId} {d : Conn} {T : Option Session}
    (hs : ∀ x y, (n'.sessions x).sa2sess[y]? = if x = a ∧ y = d.addr then T else (n.sessions x).sa2sess[y]?)
    (hc : ∀ x y, n'.conns x y = if x = a ∧ y = k then some d else n.conns x y)
    (hu : ∀ x y, n'.used x y = false → n.used x y = false ∧ ¬ (x = a ∧ y = k))
    (hk : ∀ c, n.conns a k = some c → c.addr = d.addr)
    (hold : ∀ S, (n.sessions a).sa2sess[d.addr]? = some S → S.socketId = k)
    (hnew : (∃ S, T = some S ∧ S.socketId = k ∧ d.clientOpen = true ∧ S.esi = (if d.up then some k else none) ∧
      (d.up = true → S.outCache = []) ∧ d.Fwd S.outCache) ∨ (T = none ∧ d.clientOpen = false ∧ ∃ w, d.Fwd w)) : Forward n' where
  session x y S hS := by
    rw [hs] at hS
    split at hS
    · rename_i he
      obtain ⟨rfl, rfl⟩ := he
      rcases hnew with ⟨S1, rfl, rfl, h1, h2, h3, h4⟩ | ⟨rfl, -⟩
      · cases hS
        exact ⟨d, by rw [hc, if_pos ⟨rfl, rfl⟩], rfl, h1, h2, h3, h4⟩
      · cases hS
    · rename_i hne
      obtain ⟨c, h1, h2, h3⟩ := h.session x y S hS
      refine ⟨c, ?_, h2, h3⟩
      rw [hc, if_neg]
      · exact h1
      · rintro ⟨rfl, he⟩
        rw [he] at h1
        exact hne ⟨rfl, by rw [← h2, hk c h1]⟩
  conn x y c hx := by
    rw [hc] at hx
    split at hx
    · rename_i he
      obtain ⟨rfl, rfl⟩ := he
      cases hx
      rcases hnew with ⟨S, rfl, hS, h1, -⟩ | ⟨-, h1, h2⟩
      · exact .inl ⟨h1, S, by rw [hs, if_pos ⟨rfl, rfl⟩], hS⟩
      · exact .inr ⟨h1, h2⟩
    · rename_i hne
      rcases h.conn x y c hx with ⟨h1, S, hS, rfl⟩ | h1
      · refine .inl ⟨h1, S, ?_, rfl⟩
        rw [hs, if_neg]
        · exact hS
        · rintro ⟨rfl, he⟩
          exact hne ⟨rfl, hold S (he ▸ hS)⟩
      · exact .inr h1
  fresh x y hxy := by
    obtain ⟨h1, h2⟩ := hu x y hxy
    rw [hc, if_neg h2]
    exact h.fresh x y h1

/-- A closed connection changes. -/
theorem changeClosed (h : Forward n) {a : Nat} {k : SocketId} {c d : Conn}
    (hs : ∀ x, (n'.sessions x).sa2sess = (n.sessions x).sa2sess)
    (hc : ∀ x y, n'.conns x y = if x = a ∧ y = k then some d else n.conns x y)
    (hu : ∀ x y, n'.used x y = false → n.used x y = false) (hold : n.conns a k = some c) (ho : c.clientOpen = false)
    (hnew : d.clientOpen = false) (hw : ∃ w, d.Fwd w) : Forward n' where
  session x y S hS := by
    rw [hs] at hS
    obtain ⟨q, h1, h2, h3, h4⟩ := h.session x y S hS
    refine ⟨q, ?_, h2, h3, h4⟩
    rw [hc, if_neg]
    · exact h1
    · rintro ⟨rfl, rfl⟩
      rw [hold] at h1
      cases h1
      rw [ho] at h3
      cases h3
  conn x y q hx := by
    rw [hc] at hx
    split at hx
    · cases hx
      exact .inr ⟨hnew, hw⟩
    · rw [hs]
      exact h.conn x y q hx
  fresh x y hxy := by
    rw [hc, if_neg]
    · exact h.fresh x y (hu x y hxy)
    · rintro ⟨rfl, rfl⟩
      have := h.fresh x y (hu x y hxy)
      rw [hold] at this
      cases this

/-- What a connection has on the way, and what services were given from it, changes. -/
theorem changeWay (h : Forward n) {a : Nat} {k : SocketId} {c d : Conn} (hs : ∀ x, (n'.sessions x).sa2sess = (n.sessions x).sa2sess)
    (hc : ∀ x y, n'.conns x y = if x = a ∧ y = k then some d else n.conns x y)
    (hu : ∀ x y, n'.used x y = false → n.used x y = false) (hold : n.conns a k = some c)
    (hd : d.addr = c.addr ∧ d.up = c.up ∧ d.clientOpen = c.clientOpen) (hw : ∀ w, c.Fwd w → d.Fwd w) : Forward n' := by
  obtain ⟨haddr, hup, hopen⟩ := hd
  by_cases ho : c.clientOpen = true
  · obtain ⟨S, hS, hk, h1, h2, h3⟩ := h.current hold ho
    refine h.change (T := some S) (fun x y => ?_) hc (fun x y hxy => ⟨hu x y hxy, ?_⟩) (fun q hq => ?_) (fun q hq => ?_)
      (.inl ⟨S, rfl, hk, hopen.trans ho, by rw [hup, h1], by rwa [hup], hw _ h3⟩)
    · rw [hs, haddr]
      split
      · rename_i he
        rw [he.1, he.2, hS]
      · rfl
    · rintro ⟨rfl, rfl⟩
      have := h.fresh x y (hu x y hxy)
      rw [hold] at this
      cases this
    · rw [hold] at hq
      cases hq
      exact haddr.symm
    · rw [haddr, hS] at hq
      cases hq
      exact hk
  · have hf : c.clientOpen = false := by simpa using ho
    obtain ⟨w, hfw⟩ := h.fwd hold
    exact h.changeClosed hs hc hu hold hf (hopen.trans hf) ⟨w, hw w hfw⟩

end Forward

/-- The connections agree in what concerns the one that asks. -/
def SameForth (c c' : Conn) : Prop :=
  c'.addr = c.addr ∧ c'.peer = c.peer ∧ c'.up = c.up ∧ c'.clientOpen = c.clientOpen ∧ c'.ab = c.ab ∧ c'.sent = c.sent ∧
    c'.inbox = c.inbox

/-- Nothing changes that concerns the one that asks. -/
theorem Forward.keep (h : Forward n) (hs : ∀ x, (n'.sessions x).sa2sess = (n.sessions x).sa2sess)
    (hu : ∀ x y, n'.used x y = false → n.used x y = false)
    (hc : ∀ x y, (n.conns x y = none ∧ n'.conns x y = none) ∨ ∃ c c', n.conns x y = some c ∧ n'.conns x y = some c' ∧
    SameForth c c') :
    Forward n' := by
  have hfwd : ∀ {c c' : Conn} {w}, SameForth c c' → c.Fwd w → c'.Fwd w := by
    rintro c c' w ⟨-, h2, -, -, h5, h6, h7⟩ ⟨got, g1, g2, g3⟩
    exact ⟨got, by rw [h6, h5, g1], by rw [h7, h2, g2], by rwa [h2]⟩
  refine ⟨fun a addr S hS => ?_, fun a k c' hk => ?_, fun a k hk => ?_⟩
  · rw [hs] at hS
    obtain ⟨c, h1, h2, h3, h4, h5, h6⟩ := h.session a addr S hS
    rcases hc a S.socketId with ⟨h7, -⟩ | ⟨d, c', h7, h8, h9⟩
    · rw [h1] at h7
      cases h7
    · rw [h1] at h7
      cases h7
      obtain ⟨e1, e2, e3, e4, -⟩ := id h9
      exact ⟨c', h8, by rw [e1, h2], by rw [e4, h3], by rw [e3, h4], by rwa [e3], hfwd h9 h6⟩
  · rcases hc a k with ⟨-, h7⟩ | ⟨c, d, h7, h8, h9⟩
    · rw [hk] at h7
      cases h7
    · rw [hk] at h8
      cases h8
      obtain ⟨e1, e2, e3, e4, -⟩ := id h9
      rw [hs, e1, e4]
      rcases h.conn a k c h7 with h1 | ⟨h1, w, hw⟩
      · exact .inl h1
      · exact .inr ⟨h1, w, hfwd h9 hw⟩
  · rcases hc a k with ⟨-, h7⟩ | ⟨c, d, h7, -⟩
    · exact h7
    · rw [h.fresh a k (hu a k hk)] at h7
      cases h7

/-! ## From the one that is asked -/

/-- What a service is given when an event that was passed back arrives, if it can be unpacked and goes to a service. -/
def arriveBack (k : SocketId) (addr : Addr) (e : Event) : Option Incoming :=
  match onPacket k (some addr) (.pass e) with
  | .incoming i => some i
  | _ => none

/-- What was passed back is what was taken off, and, while the accepted socket is open, what is on the way. -/
def Conn.Bwd (c : Conn) (k : SocketId) (passed : List Event) : Prop :=
  ∃ got rest, passed = got ++ rest ∧ c.answers = got.filterMap (arriveBack k c.addr) ∧ c.ba <+: rest.map .pass ∧
    (c.serverOpen = true → c.ba = rest.map .pass)

/-- The session of an accepted socket. -/
def accepting (j : SocketId) : Session := { socketId := j, esi := some j }

/-- The sessions of accepted sockets keep nothing back; what is passed to a socket that is not accepted waits under it. -/
structure Backward (host : Addr → Nat) (n : Net) : Prop where
  fresh : ∀ b j, n.used b j = false → n.accepted b j = none
  apart : ∀ b j, (n.accepted b j).isSome → n.conns b j = none
  peers : ∀ a k c j, n.conns a k = some c → c.peer = some j → n.accepted (host c.addr) j = some (a, k)
  asked : ∀ b j a k, n.accepted b j = some (a, k) → ∃ c, n.conns a k = some c ∧ c.peer = some j ∧ host c.addr = b
  opened : ∀ a k c, n.conns a k = some c → c.serverOpen = true →
    ∃ j, c.peer = some j ∧ (n.sessions (host c.addr)).sock2sess[j.1]? = some (accepting j)
  sock : ∀ b i S, (n.sessions b).sock2sess[i]? = some S → ∃ j a k c, j.1 = i ∧ S = accepting j ∧ n.accepted b j = some (a, k) ∧
    n.conns a k = some c ∧ c.serverOpen = true
  waiting : ∀ b j, n.accepted b j = none → (n.sessions b).passCache[j.1]?.getD [] = (n.passed b j).map .pass
  early : ∀ a k c, n.conns a k = some c → c.peer = none → c.ba = [] ∧ c.answers = []
  back : ∀ a k c j, n.conns a k = some c → c.peer = some j → c.Bwd k (n.passed (host c.addr) j)

namespace Backward

/-- One accepted connection and the session of its socket change. -/
theorem change (h : Backward host n) {a : Nat} {k j : SocketId} {c d : Conn} {T : Option Session} {P : List Event}
    (hold : n.conns a k = some c) (hj : c.peer = some j) (hd : d.addr = c.addr ∧ d.peer = c.peer)
    (hc : ∀ x y, n'.conns x y = if x = a ∧ y = k then some d else n.conns x y) (hacc : n'.accepted = n.accepted)
    (hu : ∀ x y, n'.used x y = false → n.used x y = false)
    (hs : ∀ x i, (n'.sessions x).sock2sess[i]? = if x = host c.addr ∧ i = j.1 then T else (n.sessions x).sock2sess[i]?)
    (hT : T = if d.serverOpen then some (accepting j) else none)
    (hw : ∀ x i, ¬ (x = host c.addr ∧ i = j.1) → (n'.sessions x).passCache[i]? = (n.sessions x).passCache[i]?)
    (hp : ∀ x y, n'.passed x y = if x = host c.addr ∧ y = j then P else n.passed x y) (hb : d.Bwd k P) : Backward host n' := by
  obtain ⟨haddr, hpeer⟩ := hd
  have hmine := h.peers a k c j hold hj
  -- another connection has another socket
  have hother : ∀ x y q i, n.conns x y = some q → ¬ (x = a ∧ y = k) → q.peer = some i → ¬ (host q.addr = host c.addr ∧ i = j) := by
    rintro x y q i hq hne hi ⟨he, rfl⟩
    have := h.peers x y q i hq hi
    rw [he, hmine] at this
    cases this
    exact hne ⟨rfl, rfl⟩
  refine ⟨fun x y hxy => ?_, fun x y hxy => ?_, fun x y q i hq hi => ?_, fun x y z w hxy => ?_, fun x y q hq ho => ?_,
    fun x i S hS => ?_, fun x y hxy => ?_, fun x y q hq hn => ?_, fun x y q i hq hi => ?_⟩
  · rw [hacc]
    exact h.fresh x y (hu x y hxy)
  · rw [hacc] at hxy
    rw [hc, if_neg]
    · exact h.apart x y hxy
    · rintro ⟨rfl, rfl⟩
      rw [h.apart x y hxy] at hold
      cases hold
  · rw [hc] at hq
    rw [hacc]
    split at hq
    · rename_i he
      obtain ⟨rfl, rfl⟩ := he
      cases hq
      rw [hpeer, hj] at hi
      cases hi
      rw [haddr]
      exact hmine
    · exact h.peers x y q i hq hi
  · rw [hacc] at hxy
    obtain ⟨q, h1, h2, h3⟩ := h.asked x y z w hxy
    by_cases he : z = a ∧ w = k
    · obtain ⟨rfl, rfl⟩ := he
      rw [hold] at h1
      cases h1
      exact ⟨d, by rw [hc, if_pos ⟨rfl, rfl⟩], by rw [hpeer, h2], by rw [haddr, h3]⟩
    · exact ⟨q, by rw [hc, if_neg he, h1], h2, h3⟩
  · rw [hc] at hq
    split at hq
    · cases hq
      refine ⟨j, by rw [hpeer, hj], ?_⟩
      rw [hs, haddr, if_pos ⟨rfl, rfl⟩, hT, if_pos ho]
    · rename_i hne
      obtain ⟨i, h1, h2⟩ := h.opened x y q hq ho
      refine ⟨i, h1, ?_⟩
      rw [hs, if_neg]
      · exact h2
      · rintro ⟨he, hi⟩
        exact hother x y q i hq hne h1 ⟨he, Subtype.ext hi⟩
  · rw [hs] at hS
    split at hS
    · rename_i he
      obtain ⟨rfl, rfl⟩ := he
      rw [hT] at hS
      split at hS
      · rename_i ho
        cases hS
        exact ⟨j, a, k, d, rfl, rfl, by rw [hacc, hmine], by rw [hc, if_pos ⟨rfl, rfl⟩], ho⟩
      · cases hS
    · rename_i hne
      obtain ⟨i', z, w, q, rfl, h1, h2, h3, h4⟩ := h.sock x i S hS
      refine ⟨i', z, w, q, rfl, h1, by rw [hacc, h2], ?_, h4⟩
      rw [hc, if_neg]
      · exact h3
      · rintro ⟨rfl, rfl⟩
        obtain ⟨q', h5, h6, h7⟩ := h.asked x i' z w h2
        rw [hold] at h5
        cases h5
        rw [hj] at h6
        cases h6
        exact hne ⟨h7.symm, rfl⟩
  · rw [hacc] at hxy
    have hne : ¬ (x = host c.addr ∧ y = j) := by
      rintro ⟨rfl, rfl⟩
      rw [hmine] at hxy
      cases hxy
    rw [hw x y.1 fun he => hne ⟨he.1, Subtype.ext he.2⟩, hp, if_neg hne]
    exact h.waiting x y hxy
  · rw [hc] at hq
    split at hq
    · cases hq
      rw [hpeer, hj] at hn
      cases hn
    · exact h.early x y q hq hn
  · rw [hc] at hq
    split at hq
    · rename_i he
      obtain ⟨rfl, rfl⟩ := he
      cases hq
      rw [hpeer, hj] at hi
      cases hi
      rw [haddr, hp, if_pos ⟨rfl, rfl⟩]
      exact hb
    · rename_i hne
      rw [hp, if_neg (hother x y q i hq hne hi)]
      exact h.back x y q i hq hi

end Backward

/-- The connections agree in what concerns the one that is asked. -/
def SameBack (c c' : Conn) : Prop :=
  c'.addr = c.addr ∧ c'.peer = c.peer ∧ c'.serverOpen = c.serverOpen ∧ c'.ba = c.ba ∧ c'.answers = c.answers

/-- A connection that no one has accepted. -/
def Conn.Unknown (c : Conn) : Prop := c.peer = none ∧ c.serverOpen = false ∧ c.ba = [] ∧ c.answers = []

/-- Nothing changes that concerns the one that is asked; there may be a new connection. -/
theorem Backward.keep (h : Backward host n) (hs : ∀ x, (n'.sessions x).sock2sess = (n.sessions x).sock2sess)
    (hw : ∀ x, (n'.sessions x).passCache = (n.sessions x).passCache) (hacc : n'.accepted = n.accepted) (hp : n'.passed = n.passed)
    (hu : ∀ x y, n'.used x y = false → n.used x y = false)
    (hc : ∀ x y, (n.conns x y = none ∧ n'.conns x y = none) ∨
    (∃ c c', n.conns x y = some c ∧ n'.conns x y = some c' ∧ SameBack c c') ∨
      (n.conns x y = none ∧ n.accepted x y = none ∧ ∃ c, n'.conns x y = some c ∧ c.Unknown)) : Backward host n' := by
  have hconn : ∀ {x y c'}, n'.conns x y = some c' → (∃ c, n.conns x y = some c ∧ SameBack c c') ∨ c'.Unknown := by
    intro x y c' hc'
    rcases hc x y with ⟨-, h1⟩ | ⟨c, q, h1, h2, h3⟩ | ⟨-, -, q, h1, h2⟩
    · rw [hc'] at h1
      cases h1
    · rw [hc'] at h2
      cases h2
      exact .inl ⟨c, h1, h3⟩
    · rw [hc'] at h1
      cases h1
      exact .inr h2
  have hconn' : ∀ {x y c}, n.conns x y = some c → ∃ c', n'.conns x y = some c' ∧ SameBack c c' := by
    intro x y c hc'
    rcases hc x y with ⟨h1, -⟩ | ⟨q, c', h1, h2, h3⟩ | ⟨h1, -⟩ <;> rw [hc'] at h1 <;> cases h1
    exact ⟨c', h2, h3⟩
  refine ⟨fun x y hxy => ?_, fun x y hxy => ?_, fun x y q i hq hi => ?_, fun x y z w hxy => ?_, fun x y q hq ho => ?_,
    fun x i S hS => ?_, fun x y hxy => ?_, fun x y q hq hn => ?_, fun x y q i hq hi => ?_⟩
  · rw [hacc]
    exact h.fresh x y (hu x y hxy)
  · rw [hacc] at hxy
    rcases hc x y with ⟨-, h1⟩ | ⟨c, q, h1, -⟩ | ⟨-, h1, -⟩
    · exact h1
    · rw [h.apart x y hxy] at h1
      cases h1
    · rw [h1] at hxy
      cases hxy
  · rw [hacc]
    rcases hconn hq with ⟨c, h1, e1, e2, -⟩ | ⟨h1, -⟩
    · rw [e1]
      exact h.peers x y c i h1 (by rw [← e2, hi])
    · rw [h1] at hi
      cases hi
  · rw [hacc] at hxy
    obtain ⟨c, h1, h2, h3⟩ := h.asked x y z w hxy
    obtain ⟨c', h4, e1, e2, -⟩ := hconn' h1
    exact ⟨c', h4, by rw [e2, h2], by rw [e1, h3]⟩
  · rcases hconn hq with ⟨c, h1, e1, e2, e3, -⟩ | ⟨-, h1, -⟩
    · rw [hs, e1, e2]
      exact h.opened x y c h1 (by rw [← e3, ho])
    · rw [h1] at ho
      cases ho
  · rw [hs] at hS
    obtain ⟨j, z, w, c, rfl, h1, h2, h3, h4⟩ := h.sock x i S hS
    obtain ⟨c', h5, e1, e2, e3, -⟩ := hconn' h3
    exact ⟨j, z, w, c', rfl, h1, by rw [hacc, h2], h5, by rw [e3, h4]⟩
  · rw [hacc] at hxy
    rw [hw, hp]
    exact h.waiting x y hxy
  · rcases hconn hq with ⟨c, h1, e1, e2, -, e4, e5⟩ | ⟨-, -, h1, h2⟩
    · rw [e4, e5]
      exact h.early x y c h1 (by rw [← e2, hn])
    · exact ⟨h1, h2⟩
  · rcases hconn hq with ⟨c, h1, e1, e2, e3, e4, e5⟩ | ⟨h1, -⟩
    · have := h.back x y c i h1 (by rw [← e2, hi])
      unfold Conn.Bwd at this ⊢
      rw [hp, e1, e3, e4, e5]
      exact this
    · rw [h1] at hi
      cases hi

theorem SameBack.refl (c : Conn) : SameBack c c := ⟨rfl, rfl, rfl, rfl, rfl⟩

theorem SameForth.refl (c : Conn) : SameForth c c := ⟨rfl, rfl, rfl, rfl, rfl, rfl, rfl⟩

namespace Backward

/-- A number for a socket is taken. -/
theorem use (h : Backward host n) (a : Nat) (k : SocketId) : Backward host (n.use a k) := by
  refine h.keep (fun _ => rfl) (fun _ => rfl) rfl rfl (fun x y hxy => ?_) (fun x y => ?_)
  · rw [use_used] at hxy
    split at hxy
    · cases hxy
    · exact hxy
  · rcases hc : n.conns x y with _ | c
    · exact .inl ⟨rfl, hc⟩
    · exact .inr (.inl ⟨c, c, rfl, hc, .refl c⟩)

/-- A connection changes in what concerns the one that asks, or is new. -/
theorem conn (h : Backward host n) {a : Nat} {k : SocketId} {d : Conn}
    (hd : (∃ c, n.conns a k = some c ∧ SameBack c d) ∨ (n.conns a k = none ∧ n.accepted a k = none ∧ d.Unknown)) :
    Backward host (n.setConn a k d) := by
  refine h.keep (fun _ => rfl) (fun _ => rfl) rfl rfl (fun _ _ hxy => hxy) (fun x y => ?_)
  rw [setConn_conns]
  by_cases he : x = a ∧ y = k
  · obtain ⟨rfl, rfl⟩ := he
    simp only [and_self, if_true]
    rcases hd with ⟨c, h1, h2⟩ | ⟨h1, h2, h3⟩
    · exact .inr (.inl ⟨c, d, h1, rfl, h2⟩)
    · exact .inr (.inr ⟨h1, h2, d, rfl, h3⟩)
  · rw [if_neg he]
    rcases hc : n.conns x y with _ | c
    · exact .inl ⟨rfl, rfl⟩
    · exact .inr (.inl ⟨c, c, rfl, rfl, .refl c⟩)

/-- What concerns the one that is asked stays in the sessions of an instance. -/
theorem sessions (h : Backward host n) {a : Nat} {s : Sessions} (hs : s.sock2sess = (n.sessions a).sock2sess)
    (hw : s.passCache = (n.sessions a).passCache) : Backward host (n.setSessions a s) := by
  refine h.keep (fun x => ?_) (fun x => ?_) rfl rfl (fun _ _ hxy => hxy) (fun x y => ?_)
  · by_cases hx : x = a
    · simp [hx, hs]
    · simp [hx]
  · by_cases hx : x = a
    · simp [hx, hw]
    · simp [hx]
  · rcases hc : n.conns x y with _ | c
    · exact .inl ⟨rfl, hc⟩
    · exact .inr (.inl ⟨c, c, rfl, hc, .refl c⟩)

theorem side (h : Backward host n) {a : Nat} {k : SocketId} {s : Sessions} {d : Conn} (hs : s.sock2sess = (n.sessions a).sock2sess)
    (hw : s.passCache = (n.sessions a).passCache)
    (hd : (∃ c, n.conns a k = some c ∧ SameBack c d) ∨ (n.conns a k = none ∧ n.accepted a k = none ∧ d.Unknown)) :
    Backward host ((n.setSessions a s).setConn a k d) :=
  (h.sessions hs hw).conn hd

end Backward

/-! ## Both -/

/-- What is known of the network between steps. -/
structure Good (host : Addr → Nat) (n : Net) : Prop where
  forward : Forward n
  backward : Backward host n

theorem good_init : Good host .init where
  forward := ⟨fun a addr S hS => by simp [Net.init] at hS, fun a k c hc => by simp [Net.init] at hc, fun _ _ _ => rfl⟩
  backward := ⟨fun _ _ _ => rfl, fun _ _ _ => rfl, fun a k c j hc => by simp [Net.init] at hc, fun b j a k hj =>
    by simp [Net.init] at hj,
    fun a k c hc => by simp [Net.init] at hc, fun b i S hS => by simp [Net.init] at hS, fun b j _ => by simp [Net.init],
    fun a k c hc => by simp [Net.init] at hc, fun a k c j hc => by simp [Net.init] at hc⟩

/-! ### The steps -/

namespace Good

theorem send (h : Good host n) (a : Nat) (addr : Addr) (dst : CInt) (e : Event) (newId : SocketId) :
    Good host ((Step.send a addr dst e newId).run host n) := by
  by_cases hu : n.used a newId = true
  · simpa [Step.run, hu] using h
  have hfree : n.conns a newId = none := h.forward.fresh a newId (by simpa using hu)
  have huse : ∀ k x y, n.conns a k ≠ none ∨ k = newId → (n.use a newId).used x y = false → n.used x y = false ∧
      ¬ (x = a ∧ y = k) := by
    intro k x y hk hxy
    simp only [use_used] at hxy
    split at hxy
    · cases hxy
    · rename_i hne
      refine ⟨hxy, ?_⟩
      rintro ⟨rfl, rfl⟩
      rcases hk with hk | rfl
      · exact hk (h.forward.fresh x y hxy)
      · exact hne ⟨rfl, rfl⟩
  rcases hS : (n.sessions a).sa2sess[addr]? with _ | S
  · -- a connection is asked for
    have hrun : (Step.send a addr dst e newId).run host n =
        (((n.use a newId).setSessions a { n.sessions a with
          sa2sess := (n.sessions a).sa2sess.insert addr { socketId := newId, outCache := [sendP (dst, e)] } }).setConn a newId
            { addr := addr, sent := [(dst, e)] }) := by
      simp [Step.run, hu, Sessions.onSendPacket, hS, Session.addSendPacket, Net.apply, Net.effect, setConn_setConn,
        sendP]
    rw [hrun]
    refine ⟨h.forward.change (T := some { socketId := newId, outCache := [sendP (dst, e)] }) (fun x y => ?_) (fun x y => rfl)
      (fun x y => huse newId x y (.inr rfl)) (fun c hc => ?_) (fun S hS' => ?_)
      (.inl ⟨_, rfl, rfl, rfl, rfl, (fun hup => by cases hup), [], rfl, rfl, fun _ => rfl⟩),
      (h.backward.use a newId).side rfl rfl (.inr ⟨hfree, h.backward.fresh a newId (by simpa using hu), rfl, rfl, rfl, rfl⟩)⟩
    · exact insert_sa2sess n a addr _ x y
    · rw [hfree] at hc
      cases hc
    · rw [hS] at hS'
      cases hS'
  · obtain ⟨c, hc, rfl, ho, hesi, hempty, got, g1, g2, g3⟩ := h.forward.session a addr S hS
    have hne : n.conns a S.socketId ≠ none := by simp [hc]
    have hhold : ∀ q, (n.sessions a).sa2sess[c.addr]? = some q → q.socketId = S.socketId := by
      intro q hq
      rw [hS] at hq
      cases hq
      rfl
    have haddr : ∀ q, n.conns a S.socketId = some q → q.addr = c.addr := by
      intro q hq
      rw [hc] at hq
      cases hq
      rfl
    by_cases hup : c.up = true
    · -- the packet is sent at once
      have hcache := hempty hup
      rw [hup, if_pos rfl] at hesi
      have hrun : (Step.send a c.addr dst e newId).run host n =
          (((n.use a newId).setSessions a { n.sessions a with sa2sess := (n.sessions a).sa2sess.insert c.addr S }).setConn a
          S.socketId
              { c with ab := c.ab ++ [sendP (dst, e)], sent := c.sent ++ [(dst, e)] }) := by
        obtain ⟨i, q, o⟩ := S
        obtain rfl : q = some i := hesi
        obtain rfl : o = [] := hcache
        simp only at hc
        simp [Step.run, hu, Sessions.onSendPacket, hS, Session.addSendPacket, Session.flushOutCache, Net.apply, Net.effect,
          Net.transmit, hc, ho, setConn_setConn, sendP]
      rw [hrun]
      refine ⟨h.forward.change (T := some S) (fun x y => ?_) (fun x y => rfl) (fun x y => huse _ x y (.inl hne)) haddr hhold
        (.inl ⟨S, rfl, rfl, ho, by rw [hesi]; simp [hup], fun _ => hcache, got, ?_, g2, g3⟩),
        (h.backward.use a newId).side rfl rfl (.inl ⟨c, hc, rfl, rfl, rfl, rfl, rfl⟩)⟩
      · exact insert_sa2sess n a c.addr _ x y
      · rw [hcache, List.append_nil] at g1
        simp [g1, hcache]
    · -- the packet waits
      have hnone : S.esi = none := by simpa [hup] using hesi
      have hrun : (Step.send a c.addr dst e newId).run host n =
          (((n.use a newId).setSessions a { n.sessions a with
            sa2sess := (n.sessions a).sa2sess.insert c.addr { S with outCache := S.outCache ++ [sendP (dst, e)] } }).setConn a
              S.socketId
              { c with sent := c.sent ++ [(dst, e)] }) := by
        simp [Step.run, hu, Sessions.onSendPacket, hS, Session.addSendPacket, hnone, Net.apply, hc, sendP]
      rw [hrun]
      refine ⟨h.forward.change (T := some { S with outCache := S.outCache ++ [sendP (dst, e)] }) (fun x y => ?_) (fun x y => rfl)
        (fun x y => huse _ x y (.inl hne)) haddr hhold
        (.inl ⟨_, rfl, rfl, ho, hesi, fun hup' => absurd hup' hup, got, ?_, g2, g3⟩),
        (h.backward.use a newId).side rfl rfl (.inl ⟨c, hc, rfl, rfl, rfl, rfl, rfl⟩)⟩
      · exact insert_sa2sess n a c.addr _ x y
      · simp [g1]

theorem connected (h : Good host n) (a : Nat) (k : SocketId) : Good host ((Step.connected a k).run host n) := by
  rcases hc : n.conns a k with _ | c
  · simpa [Step.run, hc] using h
  by_cases hup : c.up = false ∧ c.clientOpen = true
  · obtain ⟨S, hS, rfl, hesi, -, got, g1, g2, g3⟩ := h.forward.current hc hup.2
    have hrun : (Step.connected a S.socketId).run host n = ((n.setSessions a { n.sessions a with
        sa2sess := (n.sessions a).sa2sess.insert c.addr { S with esi := some S.socketId, outCache := [] } }).setConn a S.socketId
          { c with up := true, ab := c.ab ++ S.outCache }) := by
      have hfold := foldl_client (n := (n.setConn a S.socketId { c with up := true }).setSessions a { n.sessions a with
        sa2sess := (n.sessions a).sa2sess.insert c.addr { S with esi := some S.socketId, outCache := [] } })
        (a := a) (k := S.socketId) (c := { c with up := true }) (by simp) hup.2 S.outCache
      simp only [Step.run, hc, if_pos hup, Sessions.onConnected, hS, Session.flushOutCache, Net.apply,
        List.foldl_append, foldl_notices]
      rw [hfold]
      exact setConn_setConn (n.setSessions a _) a S.socketId _ _
    rw [hrun]
    refine ⟨h.forward.change (T := some { S with esi := some S.socketId, outCache := [] }) (fun x y => ?_) (fun x y => rfl)
      (fun x y hxy => ⟨hxy, ?_⟩) (fun q hq => ?_) (fun q hq => ?_)
      (.inl ⟨_, rfl, rfl, hup.2, rfl, fun _ => rfl, got, ?_, g2, g3⟩),
      h.backward.side rfl rfl (.inl ⟨c, hc, rfl, rfl, rfl, rfl, rfl⟩)⟩
    · exact insert_sa2sess n a c.addr _ x y
    · rintro ⟨rfl, rfl⟩
      have := h.forward.fresh x _ hxy
      rw [hc] at this
      cases this
    · rw [hc] at hq
      cases hq
      rfl
    · rw [hS] at hq
      cases hq
      rfl
    · simp [g1]
  · simpa [Step.run, hc, hup] using h

/-- A connection is closed, and the session for its address is dropped. -/
theorem closed (h : Good host n) {a : Nat} {k : SocketId} {c : Conn} (hc : n.conns a k = some c) (ho : c.clientOpen = true)
    (x : Notice) :
    Good host ((n.setConn a k { c with clientOpen := false }).apply a
      ((n.sessions a).notices x, { n.sessions a with sa2sess := (n.sessions a).sa2sess.erase c.addr })) := by
  obtain ⟨S, hS, rfl, -, -, hf⟩ := h.forward.current hc ho
  rw [Net.apply, foldl_notices]
  refine ⟨h.forward.change (a := a) (k := S.socketId) (d := { c with clientOpen := false }) (T := none) (fun x y => ?_)
    (fun x y => rfl)
    (fun x y hxy => ⟨hxy, ?_⟩) (fun q hq => ?_) (fun q hq => ?_) (.inr ⟨rfl, rfl, S.outCache, hf⟩),
    h.backward.side rfl rfl (.inl ⟨c, hc, rfl, rfl, rfl, rfl, rfl⟩)⟩
  · exact erase_sa2sess n a c.addr x y
  · rintro ⟨rfl, rfl⟩
    have := h.forward.fresh x _ hxy
    rw [hc] at this
    cases this
  · rw [hc] at hq
    cases hq
    rfl
  · rw [hS] at hq
    cases hq
    rfl

theorem connectFailed (h : Good host n) (a : Nat) (k : SocketId) : Good host ((Step.connectFailed a k).run host n) := by
  rcases hc : n.conns a k with _ | c
  · simpa [Step.run, hc] using h
  by_cases hup : c.up = false ∧ c.clientOpen = true
  · have := h.closed hc hup.2 (.connectFailed c.addr)
    simpa [Step.run, hc, hup, Sessions.onConnectFailed] using this
  · simpa [Step.run, hc, hup] using h

theorem disconnected (h : Good host n) (a : Nat) (k : SocketId) : Good host ((Step.disconnected a k).run host n) := by
  rcases hc : n.conns a k with _ | c
  · simpa [Step.run, hc] using h
  by_cases hup : c.up = true ∧ c.clientOpen = true
  · have := h.closed hc hup.2 (.disconnected c.addr)
    simpa [Step.run, hc, hup, Sessions.onDisconnected] using this
  · simpa [Step.run, hc, hup] using h

theorem deliver (h : Good host n) (a : Nat) (k : SocketId) : Good host ((Step.deliver a k).run host n) := by
  rcases hc : n.conns a k with _ | c
  · simpa [Step.run, hc] using h
  rcases hp : c.peer with _ | j
  · simpa [Step.run, hc, hp] using h
  rcases hab : c.ab with _ | ⟨p, ps⟩
  · simpa [Step.run, hc, hp, hab] using h
  by_cases ho : c.serverOpen = true
  · have hway : ∀ l : List Incoming, l = (match onPacket j none p with | .incoming i => [i] | _ => []) →
        Good host (n.setConn a k { c with ab := ps, inbox := c.inbox ++ l }) := by
      intro l hl
      refine ⟨h.forward.changeWay (a := a) (k := k) (c := c) (d := { c with ab := ps, inbox := c.inbox ++ l }) (fun _ => rfl)
        (fun _ _ => rfl) (fun _ _ hxy => hxy) hc ⟨rfl, rfl, rfl⟩ ?_, h.backward.conn (.inl ⟨c, hc, rfl, rfl, rfl, rfl, rfl⟩)⟩
      rintro w ⟨got, g1, g2, -⟩
      -- the packet is that of the next request
      have hlen : c.sent.map sendP = got.map sendP ++ ([p] ++ (ps ++ w)) := by simp [g1, hab]
      obtain ⟨s1, s2, hs, h1, h2⟩ := List.map_eq_append_iff.1 hlen
      obtain ⟨s3, s4, rfl, h3, h4⟩ := List.map_eq_append_iff.1 h2
      obtain ⟨x, rfl⟩ : ∃ x, s3 = [x] := by
        rcases s3 with _ | ⟨x, _ | ⟨y, s3⟩⟩ <;> simp at h3 ⊢
      obtain rfl : sendP x = p := by simpa using h3
      refine ⟨got ++ [x], ?_, ?_, fun hn => ?_⟩
      · rw [hs, List.map_append, List.map_append, h1, h4]
        simp
      · change c.inbox ++ l = (got ++ [x]).filterMap (arrive c.peer)
        rw [List.filterMap_append, g2, hl]
        congr 1
        rcases hx : onPacket j none (sendP x) with _ | _ | i | _ | _ <;> simp [arrive, hp, hx]
      · simp [hp] at hn
    rcases hx : onPacket j none p with _ | _ | i | _ | _
    case incoming =>
      have := hway [i] (by simp [hx])
      simpa [Step.run, hc, hp, hab, ho, hx] using this
    all_goals
      have := hway [] (by simp [hx])
      simpa [Step.run, hc, hp, hab, ho, hx] using this
  · simpa [Step.run, hc, hp, hab, ho] using h

end Good

/-- An event is passed to a socket. -/
theorem passTo (hf : Forward n) (hb : Backward host n) (b : Nat) (j : SocketId) (e : Event) :
    Forward { n.apply b ((n.sessions b).onPassPacket j e) with passed := upd n.passed b j (n.passed b j ++ [e]) } ∧
      Backward host { n.apply b ((n.sessions b).onPassPacket j e) with passed := upd n.passed b j (n.passed b j ++ [e]) } := by
  rcases hS : (n.sessions b).sock2sess[j.1]? with _ | S
  · -- it waits under the socket
    have happly : n.apply b ((n.sessions b).onPassPacket j e) = n.setSessions b { n.sessions b with
        passCache := (n.sessions b).passCache.insert j.1 ((n.sessions b).passCache[j.1]?.getD [] ++ [.pass e]) } := by
      simp [Sessions.onPassPacket, hS, Net.apply]
    have hsame : ∀ x y, (n.conns x y = none ∧ n.conns x y = none) ∨
        ∃ c c', n.conns x y = some c ∧ n.conns x y = some c' ∧ SameForth c c' := by
      intro x y
      rcases hxy : n.conns x y with _ | c
      · exact .inl ⟨rfl, rfl⟩
      · exact .inr ⟨c, c, rfl, rfl, rfl, rfl, rfl, rfl, rfl, rfl, rfl⟩
    rw [happly]
    refine ⟨hf.keep (fun x => ?_) (fun _ _ hxy => hxy) hsame, ?_⟩
    · by_cases hx : x = b
      · subst hx
        simp
      · simp [hx]
    rcases hacc : n.accepted b j with _ | ⟨a, k⟩
    · refine ⟨hb.fresh, hb.apart, hb.peers, hb.asked, fun x y q hq ho => ?_, fun x i S hS' => ?_, fun x y hxy => ?_, hb.early,
        fun x y q i hq hi => ?_⟩
      · obtain ⟨i, h1, h2⟩ := hb.opened x y q hq ho
        refine ⟨i, h1, ?_⟩
        by_cases hx : host q.addr = b
        · rw [hx] at h2
          simpa [hx] using h2
        · simpa [hx] using h2
      · refine hb.sock x i S ?_
        by_cases hx : x = b
        · subst hx
          simpa using hS'
        · simpa [hx] using hS'
      · have hold := hb.waiting x y hxy
        by_cases hx : x = b
        · subst hx
          by_cases hy : y = j
          · subst hy
            simp [upd, hold]
          · have hne : ¬ j.1 = y.1 := fun he => hy (Subtype.ext he.symm)
            simpa [StdMap.getElem?_insert, hne, upd, hy] using hold
        · simpa [hx, upd] using hold
      · have hne : ¬ (host q.addr = b ∧ i = j) := by
          rintro ⟨rfl, rfl⟩
          rw [hb.peers x y q i hq hi] at hacc
          cases hacc
        simpa [upd, hne] using hb.back x y q i hq hi
    · -- the socket was accepted and is closed
      obtain ⟨c, hc, hj, rfl⟩ := hb.asked b j a k hacc
      have hclosed : ¬ c.serverOpen = true := by
        intro ho
        obtain ⟨i, h1, h2⟩ := hb.opened a k c hc ho
        rw [hj] at h1
        cases h1
        rw [hS] at h2
        cases h2
      obtain ⟨got, rest, g1, g2, g3, -⟩ := hb.back a k c j hc hj
      refine hb.change (T := none) (P := n.passed (host c.addr) j ++ [e]) hc hj ⟨rfl, rfl⟩ (fun x y => ?_) rfl (fun _ _ hxy => hxy)
        (fun x i => ?_) (by simp [hclosed]) (fun x i hne => ?_) (fun x y => rfl)
        ⟨got, rest ++ [e], by rw [g1, List.append_assoc], g2, ?_, fun ho => absurd ho hclosed⟩
      · split
        · rename_i he
          rw [he.1, he.2]
          exact hc
        · rfl
      · by_cases hx : x = host c.addr
        · subst hx
          by_cases hi : i = j.1
          · subst hi
            simpa using hS
          · simp [hi]
        · simp [hx]
      · by_cases hx : x = host c.addr
        · subst hx
          have hi : ¬ j.1 = i := fun he => hne ⟨rfl, he.symm⟩
          simp [StdMap.getElem?_insert, hi]
        · simp [hx]
      · rw [List.map_append]
        exact g3.trans (List.prefix_append _ _)
  · -- it is sent
    obtain ⟨i, a, k, c, hij, rfl, hacc, hc, ho⟩ := hb.sock b j.1 S hS
    obtain rfl : i = j := Subtype.ext hij
    obtain ⟨c', hc', hj, rfl⟩ := hb.asked b i a k hacc
    rw [hc] at hc'
    cases hc'
    have hnone := hb.apart (host c.addr) i (by simp [hacc])
    have happly : n.apply (host c.addr) ((n.sessions (host c.addr)).onPassPacket i e) = (n.setSessions (host c.addr)
        { n.sessions (host c.addr) with sock2sess := (n.sessions (host c.addr)).sock2sess.insert i.1 (accepting i) }).setConn a k
          { c with ba := c.ba ++ [.pass e] } := by
      simp [Sessions.onPassPacket, hS, Session.addSendPacket, Session.flushOutCache, accepting, Net.apply, Net.effect,
        Net.transmit, hnone,
        hacc, hc, ho]
    obtain ⟨got, rest, g1, g2, g3, g4⟩ := hb.back a k c i hc hj
    rw [happly]
    refine ⟨hf.keep (fun x => ?_) (fun _ _ hxy => hxy) (fun x y => ?_), ?_⟩
    · by_cases hx : x = host c.addr
      · subst hx
        simp
      · simp [hx]
    · by_cases hxy : x = a ∧ y = k
      · obtain ⟨rfl, rfl⟩ := hxy
        exact .inr ⟨c, { c with ba := c.ba ++ [.pass e] }, hc, by simp, rfl, rfl, rfl, rfl, rfl, rfl, rfl⟩
      · rcases hq : n.conns x y with _ | q
        · exact .inl ⟨rfl, by simp [hxy, hq]⟩
        · exact .inr ⟨q, q, rfl, by simp [hxy, hq], rfl, rfl, rfl, rfl, rfl, rfl, rfl⟩
    · refine hb.change (d := { c with ba := c.ba ++ [.pass e] }) (T := some (accepting i))
        (P := n.passed (host c.addr) i ++ [e]) hc hj
        ⟨rfl, rfl⟩ (fun x y => rfl) rfl (fun _ _ hxy => hxy) (fun x q => ?_) (by simp [ho]) (fun x q hne => ?_) (fun x y => rfl)
        ⟨got, rest ++ [e], by rw [g1, List.append_assoc], g2, ?_, ?_⟩
      · by_cases hx : x = host c.addr
        · subst hx
          by_cases hq : q = i.1
          · simp [hq]
          · have hq' : ¬ i.1 = q := fun he => hq he.symm
            simp [StdMap.getElem?_insert, hq, hq']
        · simp [hx]
      · by_cases hx : x = host c.addr
        · subst hx
          simp
        · simp [hx]
      · rw [g4 ho]
        simp
      · intro _
        simp [g4 ho]

/-- A connection that is accepted has kept nothing from what was asked so far. -/
theorem acceptBy (hf : Forward n) (hb : Backward host n) {a : Nat} {k j : SocketId} {c : Conn} (hc : n.conns a k = some c)
    (hn : c.peer = none) (hu : n.used (host c.addr) j = false) :
    Forward ((Step.accept a k j).run host n) ∧ Backward host ((Step.accept a k j).run host n) := by
  set b := host c.addr with hbdef
  have hfree : n.conns b j = none := hf.fresh b j hu
  have hacc : n.accepted b j = none := hb.fresh b j hu
  have hsess : (n.sessions b).sock2sess[j.1]? = none := by
    rcases hS : (n.sessions b).sock2sess[j.1]? with _ | S
    · rfl
    · obtain ⟨i, x, y, q, hi, -, h1, -⟩ := hb.sock b j.1 S hS
      obtain rfl : i = j := Subtype.ext hi
      rw [hacc] at h1
      cases h1
  have hmem : j.1 ∉ (n.sessions b).sock2sess := by
    intro hm
    obtain ⟨S, hS⟩ := (StdMap.mem_iff _ _).1 hm
    rw [hsess] at hS
    cases hS
  have hne : ¬ (b = a ∧ j = k) := by
    rintro ⟨h1, rfl⟩
    rw [h1, hc] at hfree
    cases hfree
  obtain ⟨hba, hans⟩ := hb.early a k c hc hn
  have hwait := hb.waiting b j hacc
  -- what was passed before goes out
  have hrun : (Step.accept a k j).run host n = (({ n with
      used := upd n.used b j true
      accepted := upd n.accepted b j (some (a, k)) } : Net).setSessions b { n.sessions b with
        sock2sess := (n.sessions b).sock2sess.insert j.1 (accepting j)
        passCache := (n.sessions b).passCache.erase j.1 }).setConn a k
          { c with peer := some j, serverOpen := true, ba := (n.passed b j).map .pass } := by
    have hadd := addAll_connected (S := accepting j) (k := j) rfl rfl ((n.passed b j).map .pass)
    unfold accepting at hadd
    simp only [Step.run, hc, hn, Option.isSome_none, Bool.false_eq_true, ← hbdef, hu, or_self, if_false, Sessions.onAccepted,
      hwait, hadd,
      setConn_sessions, use_sessions, hmem, Net.apply, List.foldl_append, foldl_notices]
    rw [foldl_server (a := a) (k := k) (c := { c with peer := some j, serverOpen := true }) (by simp [hne, hfree]) (by simp [upd])
      (by simp) rfl]
    rw [hba]
    simp [Net.setConn, Net.setSessions, Net.use, accepting]
    funext x y
    by_cases hxy : x = a ∧ y = k <;> simp [upd, hxy]
  rw [hrun]
  refine ⟨hf.changeWay (a := a) (k := k) (c := c)
    (d := { c with peer := some j, serverOpen := true, ba := (n.passed b j).map .pass }) (fun x => ?_) (fun x y => rfl)
    (fun x y hxy => ?_) hc
    ⟨rfl, rfl, rfl⟩ ?_, ?_⟩
  · by_cases hx : x = b <;> simp [hx]
  · simp only [setConn_used, setSessions_used, upd] at hxy
    split at hxy
    · cases hxy
    · exact hxy
  · rintro w ⟨got, g1, g2, g3⟩
    obtain rfl := g3 hn
    exact ⟨[], g1, by simpa using g2, fun hp => by cases hp⟩
  · have hother : ∀ {x y v}, n.accepted x y = some v → ¬ (x = b ∧ y = j) := by
      rintro x y v hxy ⟨rfl, rfl⟩
      rw [hacc] at hxy
      cases hxy
    refine ⟨fun x y hxy => ?_, fun x y hxy => ?_, fun x y q i hq hi => ?_, fun x y z w hxy => ?_, fun x y q hq ho => ?_,
      fun x i S hS => ?_, fun x y hxy => ?_, fun x y q hq hp => ?_, fun x y q i hq hi => ?_⟩
    · simp only [setConn_used, setSessions_used, upd] at hxy
      split at hxy
      · cases hxy
      · rename_i hxy'
        simp only [setConn_accepted, setSessions_accepted, upd, hxy', if_false]
        exact hb.fresh x y hxy
    · simp only [setConn_accepted, setSessions_accepted, upd] at hxy
      simp only [setConn_conns, setSessions_conns]
      by_cases he : x = b ∧ y = j
      · obtain ⟨rfl, rfl⟩ := he
        rw [if_neg hne]
        exact hfree
      · rw [if_neg he] at hxy
        rw [if_neg]
        · exact hb.apart x y hxy
        · rintro ⟨rfl, rfl⟩
          rw [hb.apart x y hxy] at hc
          cases hc
    · simp only [setConn_conns, setSessions_conns] at hq
      simp only [setConn_accepted, setSessions_accepted, upd]
      split at hq
      · rename_i he
        obtain ⟨rfl, rfl⟩ := he
        cases hq
        cases hi
        simp [hbdef]
      · have h1 := hb.peers x y q i hq hi
        rw [if_neg (hother h1)]
        exact h1
    · simp only [setConn_accepted, setSessions_accepted, upd] at hxy
      simp only [setConn_conns, setSessions_conns]
      split at hxy
      · rename_i he
        obtain ⟨rfl, rfl⟩ := he
        cases hxy
        exact ⟨{ c with peer := some y, serverOpen := true, ba := (n.passed b y).map .pass }, by simp, rfl, rfl⟩
      · obtain ⟨q, h1, h2, h3⟩ := hb.asked x y z w hxy
        refine ⟨q, ?_, h2, h3⟩
        rw [if_neg]
        · exact h1
        · rintro ⟨rfl, rfl⟩
          rw [hc] at h1
          cases h1
          rw [hn] at h2
          cases h2
    · simp only [setConn_conns, setSessions_conns] at hq
      simp only [setConn_sessions, setSessions_sessions]
      split at hq
      · cases hq
        exact ⟨j, rfl, by simp [← hbdef]⟩
      · obtain ⟨i, h1, h2⟩ := hb.opened x y q hq ho
        refine ⟨i, h1, ?_⟩
        have h3 := hother (hb.peers x y q i hq h1)
        by_cases hx : host q.addr = b
        · have hi : ¬ j.1 = i.1 := fun he => h3 ⟨hx, Subtype.ext he.symm⟩
          rw [if_pos hx]
          rw [hx] at h2
          simpa [StdMap.getElem?_insert, hi] using h2
        · rwa [if_neg hx]
    · simp only [setConn_sessions, setSessions_sessions] at hS
      simp only [setConn_conns, setSessions_conns, setConn_accepted, setSessions_accepted, upd]
      by_cases hx : x = b ∧ i = j.1
      · obtain ⟨rfl, rfl⟩ := hx
        simp only [if_true, StdMap.getElem?_insert] at hS
        cases hS
        exact ⟨j, a, k, { c with peer := some j, serverOpen := true, ba := (n.passed b j).map .pass }, rfl,
          rfl, by simp, by simp, rfl⟩
      · have hS' : (n.sessions x).sock2sess[i]? = some S := by
          by_cases hxb : x = b
          · have hi : ¬ j.1 = i := fun he => hx ⟨hxb, he.symm⟩
            subst hxb
            simpa [StdMap.getElem?_insert, hi] using hS
          · simpa [hxb] using hS
        obtain ⟨i', z, w, q, rfl, h1, h2, h3, h4⟩ := hb.sock x i S hS'
        refine ⟨i', z, w, q, rfl, h1, ?_, ?_, h4⟩
        · rw [if_neg (hother h2)]
          exact h2
        · rw [if_neg]
          · exact h3
          · rintro ⟨rfl, rfl⟩
            obtain ⟨q', h5, h6, -⟩ := hb.asked x i' z w h2
            rw [hc] at h5
            cases h5
            rw [hn] at h6
            cases h6
    · simp only [setConn_accepted, setSessions_accepted, upd] at hxy
      split at hxy
      · cases hxy
      · rename_i hxy'
        simp only [setConn_sessions, setSessions_sessions, setConn_passed, setSessions_passed]
        by_cases hx : x = b
        · have hy : ¬ j.1 = y.1 := fun he => hxy' ⟨hx, Subtype.ext he.symm⟩
          rw [hx] at hxy ⊢
          simpa [StdMap.getElem?_erase, hy] using hb.waiting b y hxy
        · simpa [hx] using hb.waiting x y hxy
    · simp only [setConn_conns, setSessions_conns] at hq
      split at hq
      · cases hq
        cases hp
      · exact hb.early x y q hq hp
    · simp only [setConn_conns, setSessions_conns] at hq
      simp only [setConn_passed, setSessions_passed]
      split at hq
      · rename_i he
        obtain ⟨rfl, rfl⟩ := he
        cases hq
        cases hi
        exact ⟨[], n.passed b j, rfl, by simp [hans], List.prefix_refl _, fun _ => rfl⟩
      · exact hb.back x y q i hq hi

/-- The session of an accepted socket is there as long as the socket is open. -/
theorem Backward.session (h : Backward host n) {a : Nat} {k j : SocketId} {c : Conn} (hc : n.conns a k = some c)
    (hj : c.peer = some j) :
    (n.sessions (host c.addr)).sock2sess[j.1]? = if c.serverOpen then some (accepting j) else none := by
  split
  · rename_i ho
    obtain ⟨i, h1, h2⟩ := h.opened a k c hc ho
    rw [hj] at h1
    cases h1
    exact h2
  · rename_i ho
    rcases hS : (n.sessions (host c.addr)).sock2sess[j.1]? with _ | S
    · rfl
    · obtain ⟨i, x, y, q, hi, -, h1, h2, h3⟩ := h.sock (host c.addr) j.1 S hS
      obtain rfl : i = j := Subtype.ext hi
      rw [h.peers a k c i hc hj] at h1
      cases h1
      rw [hc] at h2
      cases h2
      exact absurd h3 ho

namespace Good

theorem pass (h : Good host n) (b : Nat) (e : Event) : Good host ((Step.pass b e).run host n) := by
  rcases hr : e.route.getLast? with _ | r
  · simpa [Step.run, hr] using h
  rcases r with id | sock | o | s | o | t | l
  case remoteAddr =>
    obtain ⟨h1, h2⟩ := passTo h.forward h.backward b sock { e with route := e.route.dropLast }
    simpa [Step.run, hr] using Good.mk h1 h2
  all_goals simpa [Step.run, hr] using h

theorem accept (h : Good host n) (a : Nat) (k j : SocketId) : Good host ((Step.accept a k j).run host n) := by
  rcases hc : n.conns a k with _ | c
  · simpa [Step.run, hc] using h
  by_cases hn : c.peer.isSome = true ∨ n.used (host c.addr) j = true
  · simpa [Step.run, hc, hn] using h
  · push Not at hn
    obtain ⟨h1, h2⟩ := acceptBy h.forward h.backward hc (by simpa using hn.1) (by simpa using hn.2)
    exact ⟨h1, h2⟩

theorem answer (h : Good host n) (a : Nat) (k : SocketId) : Good host ((Step.answer a k).run host n) := by
  rcases hc : n.conns a k with _ | c
  · simpa [Step.run, hc] using h
  rcases hba : c.ba with _ | ⟨p, ps⟩
  · simpa [Step.run, hc, hba] using h
  by_cases ho : c.up = true ∧ c.clientOpen = true
  · rcases hj : c.peer with _ | j
    · have := (h.backward.early a k c hc hj).1
      rw [hba] at this
      cases this
    have hway : ∀ l : List Incoming, l = (match onPacket k (some c.addr) p with | .incoming i => [i] | _ => []) →
        Good host (n.setConn a k { c with ba := ps, answers := c.answers ++ l }) := by
      intro l hl
      refine ⟨h.forward.keep (fun _ => rfl) (fun _ _ hxy => hxy) (fun x y => ?_), ?_⟩
      · rw [setConn_conns]
        by_cases he : x = a ∧ y = k
        · obtain ⟨rfl, rfl⟩ := he
          exact .inr ⟨c, _, hc, if_pos ⟨rfl, rfl⟩, rfl, rfl, rfl, rfl, rfl, rfl, rfl⟩
        · rw [if_neg he]
          rcases hq : n.conns x y with _ | q
          · exact .inl ⟨rfl, rfl⟩
          · exact .inr ⟨q, q, rfl, rfl, .refl q⟩
      · -- the packet is that of the next event that was passed back
        obtain ⟨got, rest, g1, g2, g3, g4⟩ := h.backward.back a k c j hc hj
        rw [hba] at g3 g4
        obtain ⟨e, rest', rfl, rfl, g5⟩ : ∃ e rest', rest = e :: rest' ∧ p = .pass e ∧ ps <+: rest'.map .pass := by
          rcases rest with _ | ⟨e, rest'⟩
          · simp at g3
          · rw [List.map_cons, List.cons_prefix_cons] at g3
            exact ⟨e, rest', rfl, g3.1, g3.2⟩
        refine h.backward.change (d := { c with ba := ps, answers := c.answers ++ l }) hc hj ⟨rfl, rfl⟩ (fun x y => rfl) rfl
          (fun _ _ hxy => hxy) (T := if c.serverOpen then some (accepting j) else none) (fun x i => ?_) rfl (fun _ _ _ => rfl)
          (P := n.passed (host c.addr) j) (fun x y => ?_) ⟨got ++ [e], rest', by simp [g1], ?_, g5, fun hs => ?_⟩
        · split
          · rename_i he
            obtain ⟨rfl, rfl⟩ := he
            exact h.backward.session hc hj
          · rfl
        · split
          · rename_i he
            obtain ⟨rfl, rfl⟩ := he
            rfl
          · rfl
        · change c.answers ++ l = (got ++ [e]).filterMap (arriveBack k c.addr)
          rw [List.filterMap_append, g2, hl]
          congr 1
          rcases hx : onPacket k (some c.addr) (.pass e) with _ | _ | i | _ | _ <;> simp [arriveBack, hx]
        · have := g4 hs
          rw [List.map_cons] at this
          exact (List.cons.inj this).2
    rcases hx : onPacket k (some c.addr) p with _ | _ | i | _ | _
    case incoming =>
      have := hway [i] (by simp [hx])
      simpa [Step.run, hc, hba, ho, hx] using this
    all_goals
      have := hway [] (by simp [hx])
      simpa [Step.run, hc, hba, ho, hx] using this
  · simpa [Step.run, hc, hba, ho] using h

theorem disaccepted (h : Good host n) (a : Nat) (k : SocketId) : Good host ((Step.disaccepted a k).run host n) := by
  rcases hc : n.conns a k with _ | c
  · simpa [Step.run, hc] using h
  rcases hj : c.peer with _ | j
  · simpa [Step.run, hc, hj] using h
  by_cases ho : c.serverOpen = true
  · have hrun : (Step.disaccepted a k).run host n = (n.setConn a k { c with serverOpen := false }).setSessions (host c.addr)
        { n.sessions (host c.addr) with sock2sess := (n.sessions (host c.addr)).sock2sess.erase j.1 } := by
      simp only [Step.run, hc, hj, if_pos ho, Sessions.onDisaccepted, Net.apply, foldl_notices]
    rw [hrun]
    refine ⟨h.forward.keep (fun x => ?_) (fun _ _ hxy => hxy) (fun x y => ?_), ?_⟩
    · by_cases hx : x = host c.addr
      · simp [hx]
      · simp [hx]
    · rw [setSessions_conns, setConn_conns]
      by_cases he : x = a ∧ y = k
      · obtain ⟨rfl, rfl⟩ := he
        exact .inr ⟨c, _, hc, if_pos ⟨rfl, rfl⟩, rfl, rfl, rfl, rfl, rfl, rfl, rfl⟩
      · rw [if_neg he]
        rcases hq : n.conns x y with _ | q
        · exact .inl ⟨rfl, rfl⟩
        · exact .inr ⟨q, q, rfl, rfl, .refl q⟩
    · obtain ⟨got, rest, g1, g2, g3, -⟩ := h.backward.back a k c j hc hj
      refine h.backward.change (d := { c with serverOpen := false }) hc hj ⟨rfl, rfl⟩ (fun x y => rfl) rfl (fun _ _ hxy => hxy)
        (T := none) (fun x i => ?_) rfl (fun x i _ => ?_) (P := n.passed (host c.addr) j) (fun x y => ?_)
        ⟨got, rest, g1, g2, g3, fun hs => by cases hs⟩
      · by_cases hx : x = host c.addr
        · subst hx
          by_cases hi : j.1 = i
          · simp [hi]
          · have hi' : ¬ i = j.1 := fun he => hi he.symm
            simp [StdMap.getElem?_erase, hi, hi']
        · simp [hx]
      · by_cases hx : x = host c.addr
        · simp [hx]
        · simp [hx]
      · split
        · rename_i he
          obtain ⟨rfl, rfl⟩ := he
          rfl
        · rfl
  · simpa [Step.run, hc, hj, ho] using h

/-- The sessions of an instance change in who is to be told alone. -/
theorem subscribers (h : Good host n) (a : Nat) (l : List RouteT) :
    Good host (n.setSessions a { n.sessions a with subscribers := l }) := by
  refine ⟨h.forward.keep (fun x => ?_) (fun _ _ hxy => hxy) (fun x y => ?_), h.backward.sessions rfl rfl⟩
  · by_cases hx : x = a
    · simp [hx]
    · simp [hx]
  · rcases hc : n.conns x y with _ | c
    · exact .inl ⟨rfl, hc⟩
    · exact .inr ⟨c, c, rfl, hc, .refl c⟩

theorem setSessions_self (n : Net) (a : Nat) : n.setSessions a (n.sessions a) = n := by
  unfold Net.setSessions
  congr 1
  funext x
  split
  · rename_i hx
    rw [hx]
  · rfl

theorem subscribe (h : Good host n) (a : Nat) (route : RouteT) : Good host ((Step.subscribe a route).run host n) := by
  rcases route with _ | ⟨r, route⟩
  · simpa [Step.run, Sessions.onSubscribe, setSessions_self] using h
  · exact h.subscribers a _

theorem unsubscribe (h : Good host n) (a : Nat) (route : RouteT) : Good host ((Step.unsubscribe a route).run host n) :=
  h.subscribers a _

/-- No session that has a socket keeps anything back, so there is nothing to flush. -/
theorem flushAll (h : Good host n) (a : Nat) : (n.sessions a).flushAll = ([], n.sessions a) := by
  have hs : ∀ (i : Int) (S : Session), (n.sessions a).sock2sess[i]? = some S → S.flushOutCache = ([], S) := by
    intro i S hS
    obtain ⟨j, -, -, -, -, rfl, -⟩ := h.backward.sock a i S hS
    rfl
  have ha : ∀ (addr : Addr) (S : Session), (n.sessions a).sa2sess[addr]? = some S → S.esi.isSome = true →
      S.flushOutCache = ([], S) := by
    intro addr S hS hsome
    obtain ⟨c, -, -, -, h1, h2, -⟩ := h.forward.session a addr S hS
    by_cases hup : c.up = true
    · obtain ⟨i, q, o⟩ := S
      obtain rfl : o = [] := h2 hup
      rw [hup, if_pos rfl] at h1
      obtain rfl : q = some i := h1
      rfl
    · rw [if_neg hup] at h1
      rw [h1] at hsome
      cases hsome
  unfold Sessions.flushAll
  refine Prod.ext ?_ ?_
  · simp only [List.append_eq_nil_iff, List.flatMap_eq_nil_iff]
    refine ⟨fun z hz => ?_, fun z hz => ?_⟩
    · split
      · rw [hs z.1 z.2 (Std.ExtTreeMap.mem_toList_iff_getElem?_eq_some.1 hz)]
      · rfl
    · split
      · rename_i hsome
        rw [ha z.1 z.2 (Std.ExtTreeMap.mem_toList_iff_getElem?_eq_some.1 hz) hsome]
      · rfl
  · have h1 : (n.sessions a).sock2sess.map (fun _ S => (if S.esi.isSome = true then S.flushOutCache else ([], S)).2) =
        (n.sessions a).sock2sess := by
      refine Std.ExtTreeMap.ext_getElem? fun i => ?_
      rw [Std.ExtTreeMap.getElem?_map]
      rcases hS : (n.sessions a).sock2sess[i]? with _ | S
      · rfl
      · simp [hs i S hS]
    have h2 : (n.sessions a).sa2sess.map (fun _ S => (if S.esi.isSome = true then S.flushOutCache else ([], S)).2) =
        (n.sessions a).sa2sess := by
      refine Std.ExtTreeMap.ext_getElem? fun addr => ?_
      rw [Std.ExtTreeMap.getElem?_map]
      rcases hS : (n.sessions a).sa2sess[addr]? with _ | S
      · rfl
      · by_cases hsome : S.esi.isSome = true
        · simp [ha addr S hS hsome]
        · simp [hsome]
    simp only
    rw [h1, h2]

theorem bound (h : Good host n) (a : Nat) : Good host ((Step.bound a).run host n) := by
  have : (Step.bound a).run host n = n := by
    rw [Step.run, h.flushAll a, Net.apply, setSessions_self]
    rfl
  rw [this]
  exact h

/-- What is known stays known. -/
theorem step (h : Good host n) (s : Step) : Good host (s.run host n) := by
  cases s with
  | send a addr dst e newId => exact h.send a addr dst e newId
  | pass b e => exact h.pass b e
  | accept a k j => exact h.accept a k j
  | connected a k => exact h.connected a k
  | connectFailed a k => exact h.connectFailed a k
  | deliver a k => exact h.deliver a k
  | answer a k => exact h.answer a k
  | disconnected a k => exact h.disconnected a k
  | disaccepted a k => exact h.disaccepted a k
  | subscribe a route => exact h.subscribe a route
  | unsubscribe a route => exact h.unsubscribe a route
  | bound a => exact h.bound a

end Good


end Rpc

end Grain
