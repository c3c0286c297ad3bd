import Grain.Lemmas.Reading
import Grain.Genesis

/-!
# Views in the reader service

A view is evaluated with the source and the granules of the current root, and agrees with what the other requests read there,
exactly when the context in the cache, if there is one, was loaded from that root and not from one that `InvalidateRoot` has
replaced.
-/

namespace Grain

namespace GrainReader

variable {Γ : Ctx} {parse : String → Except String Json} {s s' : GrainReader} {c : String} {n : Nat}

/-- The context that a view of the contract would be evaluated in belongs to the current root: it points to it, and its source is
what the root has for the contract. -/
def EvaluatedInRoot (Γ : Ctx) (s : GrainReader) (c : String) : Prop :=
  ∀ n cc, s.root = some n → (s.getContract Γ n c).1 = .ok (some cc) →
    cc.root = n ∧ (s.loadSource Γ n c).1 = .ok (some cc.src)

/-- The cache has a context of the contract from before the current root was installed. -/
def Stale (s : GrainReader) (c : String) : Prop := ∃ cc, s.contractCache[c]? = some cc ∧ s.root ≠ some cc.root

/-! ## What a view should answer -/

/-- The interface inside a view over given granules. -/
def answerHost (granule : String → Except Stop (Option String)) : HostCall → Except Stop HostRes
  | .getGranule key => if key = "" then .ok (.exception "") else granuleRes (granule key)
  | .remainingValue => .ok (.int 0)
  | .msg => .ok .undefined
  | h => .ok (.exception (h.fn ++ " is not allowed in view"))

/-- The result of a view's code over given granules. -/
def answerView (granule : String → Except Stop (Option String)) : Script → Nat → Except Stop HostRes
  | .done r _, _ => .ok (.text r)
  | .throw text _, _ => .ok (.exception text)
  | .step _ _, 0 => .ok (.exception "interrupted")
  | .step _ k, m + 1 => answerView granule k m
  | .call heap h k, m =>
    match answerHost granule h with
    | .ok r => answerView granule (k r heap) m
    | .error e => .error e

/-- The answer to a `CallViewREQ` for a contract with a given source over given granules; `heap` is the state of its global
objects, if the source evaluates. -/
def answerCallView (Γ : Ctx) (parse : String → Except String Json) (granule : String → Except Stop (Option String))
    (src : String) (heap : Option Nat) (contract view paramsJson : String) (points : Nat) : Except Stop ClientReply :=
  match heap with
  | none => .ok (.callViewRSP false true ("contract not found: " ++ contract))
  | some heap =>
    if (Γ.view src heap view (.obj [])).isNone then .ok (.callViewRSP false true ("view not found: " ++ view))
    else
      match if paramsJson = "" then .ok (.obj []) else parse paramsJson with
      | .error what => .ok (.callViewRSP true true ("params: invalid json: " ++ what))
      | .ok params =>
        match Γ.view src heap view params with
        | none => .ok (viewReply (.exception ("view not found: " ++ view)))
        | some script => (answerView granule script points).map viewReply

/-- The state of the contract's global objects: in the cache, or as its source makes them. -/
def heapOf (Γ : Ctx) (s : GrainReader) (c src : String) : Option Nat :=
  match s.contractCache[c]? with
  | some cc => some cc.heap
  | none => Γ.load src

/-- A `CallViewREQ` gets the answer for the source that a `GetContractREQ` and the granules that `GetContractDataREQ`s would be
answered with at the same moment. -/
def AgreesWithReads (Γ : Ctx) (parse : String → Except String Json) (s : GrainReader) (c view paramsJson : String)
    (points : Nat) : Prop :=
  ∀ granule : String → Except Stop (Option String),
    (∀ key, (s.clientMsg Γ parse (.getContractDataREQ c key)).1 = (granule key).map .getContractDataRSP) →
    (∀ con ttl time, (s.clientMsg Γ parse (.getContractREQ c)).1 = .ok (.getContractRSP (some (con, ttl, time))) →
      (s.clientMsg Γ parse (.callViewREQ c view paramsJson points)).1 =
        answerCallView Γ parse granule con.src (s.heapOf Γ c con.src) c view paramsJson points) ∧
    ((s.clientMsg Γ parse (.getContractREQ c)).1 = .ok (.getContractRSP none) →
      (s.clientMsg Γ parse (.callViewREQ c view paramsJson points)).1 =
        .ok (.callViewRSP false true ("contract not found: " ++ c)))

/-! ## Lookups -/

/-- The state after lookups: only cells were loaded into root objects. -/
structure Read (s s' : GrainReader) : Prop where
  db : s'.db = s.db
  made : s'.made = s.made
  root : s'.root = s.root
  contractCache : s'.contractCache = s.contractCache
  roots : ∀ m r, s.roots m = some r → r.Rooted → ∃ r', s'.roots m = some r' ∧ ReadTree.Reads s.db r r'

theorem read_within {τ : Type} {m : Name} {cast : Payload → Option τ} :
    Read s (s.within n (ReadTree.getNoCreate Γ s.db m cast)).2 := by
  unfold within
  split
  · exact ⟨rfl, rfl, rfl, rfl, fun k r hr _ => ⟨r, hr, .refl r⟩⟩
  · rename_i t ht
    refine ⟨rfl, rfl, rfl, rfl, ?_⟩
    intro k r hr hroot
    by_cases hk : k = n
    · subst hk
      obtain rfl : t = r := Option.some.inj (ht.symm.trans hr)
      exact ⟨_, if_pos rfl, ReadTree.reads_getNoCreate hroot⟩
    · exact ⟨r, (if_neg hk).trans hr, .refl r⟩

theorem read_getGranule {key : String} : Read s (s.getGranule Γ n c key).2 := read_within

theorem read_loadSource : Read s (s.loadSource Γ n c).2 := read_within

/-- The use of a root that is alive. -/
theorem within_of_roots {α : Type} {r : ReadTree} {f : ReadTree → Except Stop α × ReadTree} (h : s.roots n = some r) :
    s.within n f = ((f r).1, { s with roots := fun m => if m = n then some (f r).2 else s.roots m }) := by
  unfold within
  rw [h]

theorem getGranule_fst {r : ReadTree} {key : String} (h : s.roots n = some r) :
    (s.getGranule Γ n c key).1 =
      (ReadTree.getNoCreate Γ s.db (.contractData c key) Payload.contractData? r).1.map (·.map (·.2)) := by
  change (s.within n _).1.map _ = _
  rw [within_of_roots h]

theorem loadSource_fst {r : ReadTree} (h : s.roots n = some r) :
    (s.loadSource Γ n c).1 =
      (ReadTree.getNoCreate Γ s.db (.contract c) Payload.contract? r).1.map (·.map (·.2.src)) := by
  change (s.within n _).1.map _ = _
  rw [within_of_roots h]

/-- Lookups do not change what a lookup finds. -/
theorem Read.getGranule_eq {r : ReadTree} {key : String} (h : Read s s') (hr : s.roots n = some r) (hroot : r.Rooted) :
    (s'.getGranule Γ n c key).1 = (s.getGranule Γ n c key).1 := by
  obtain ⟨r', hr', hreads⟩ := h.roots n r hr hroot
  rw [getGranule_fst hr, getGranule_fst hr', h.db, hreads.getNoCreate_eq hroot]

/-! ## The invariant -/

/-- A context of the cache: if it points to the current root, its source is what that root has for the contract. -/
structure Backed (Γ : Ctx) (s : GrainReader) (c : String) (cc : ReaderContext) : Prop where
  root : s.root.isSome
  made : cc.root < s.made
  shown : s.root = some cc.root → ∃ r con, s.roots cc.root = some r ∧
    r.Shows Γ (.contract c) Payload.contract? con ∧ con.2.src = cc.src

/-- What holds in every state of the service. -/
structure Inv (Γ : Ctx) (s : GrainReader) : Prop where
  live : ∀ n, s.root = some n → n < s.made ∧ ∃ r, s.roots n = some r ∧ r.Rooted
  cached : ∀ c cc, s.contractCache[c]? = some cc → s.Backed Γ c cc

theorem Backed.read {cc : ReaderContext} (h : s.Backed Γ c cc) (hr : Read s s') : s'.Backed Γ c cc := by
  refine ⟨by rw [hr.root]; exact h.root, by rw [hr.made]; exact h.made, ?_⟩
  intro hroot
  rw [hr.root] at hroot
  obtain ⟨r, con, h1, h2, h3⟩ := h.shown hroot
  obtain ⟨r', h1', hreads⟩ := hr.roots _ r h1 h2.1
  exact ⟨r', con, h1', h2.grows hreads.grows, h3⟩

theorem Inv.read (h : s.Inv Γ) (hr : Read s s') : s'.Inv Γ := by
  constructor
  · intro n hn
    rw [hr.root] at hn
    obtain ⟨hm, r, h1, h2⟩ := h.live n hn
    obtain ⟨r', h1', hreads⟩ := hr.roots n r h1 h2
    exact ⟨by rw [hr.made]; exact hm, r', h1', hreads.rooted h2⟩
  · intro c cc hc
    rw [hr.contractCache] at hc
    exact (h.cached c cc hc).read hr

/-- A context with the source and the root of one that is backed may be entered in the cache. -/
theorem Inv.insert {cc : ReaderContext} (h : s.Inv Γ) (hb : s.Backed Γ c cc) :
    Inv Γ { s with contractCache := s.contractCache.insert c cc } := by
  constructor
  · exact h.live
  · intro d cd hd
    by_cases hdc : d = c
    · subst hdc
      obtain rfl : cc = cd := by simpa using hd
      exact ⟨hb.root, hb.made, hb.shown⟩
    · have hd' : s.contractCache[d]? = some cd := by
        have : (s.contractCache.insert c cc)[d]? = some cd := hd
        rw [Std.ExtTreeMap.getElem?_insert] at this
        simpa [Std.compare_eq_iff_eq, Ne.symm hdc] using this
      have hb' := h.cached d cd hd'
      exact ⟨hb'.root, hb'.made, hb'.shown⟩

/-- A source that is loaded from the current root backs the context that is made of it. -/
theorem backed_of_loadSource {src : String} (heap : Nat) (h : s.Inv Γ) (hn : s.root = some n)
    (hl : (s.loadSource Γ n c).1 = .ok (some src)) :
    (s.loadSource Γ n c).2.Backed Γ c { src := src, heap := heap, root := n } := by
  obtain ⟨hm, r, hr, hroot⟩ := h.live n hn
  have hread := read_loadSource (Γ := Γ) (s := s) (n := n) (c := c)
  refine ⟨by rw [hread.root, hn]; rfl, by rw [hread.made]; exact hm, ?_⟩
  intro _
  rw [loadSource_fst hr] at hl
  rcases hg : (ReadTree.getNoCreate Γ s.db (.contract c) Payload.contract? r).1 with e | con
  · rw [hg] at hl
    nomatch hl
  · rw [hg] at hl
    cases con with
    | none => nomatch hl
    | some con =>
      refine ⟨_, con, ?_, ReadTree.shows_of_getNoCreate hroot hg, Option.some.inj (Except.ok.inj hl)⟩
      change (s.within n _).2.roots n = some _
      rw [within_of_roots hr]
      exact if_pos rfl

/-- `get_contract` for the current root keeps the invariant, and the context it returns is backed. -/
theorem Inv.getContract (h : s.Inv Γ) (hn : s.root = some n) :
    (s.getContract Γ n c).2.Inv Γ ∧ ∀ cc, (s.getContract Γ n c).1 = .ok (some cc) → (s.getContract Γ n c).2.Backed Γ c cc := by
  have hread := read_loadSource (Γ := Γ) (s := s) (n := n) (c := c)
  unfold GrainReader.getContract
  split
  · rename_i cc hc
    refine ⟨h, ?_⟩
    intro cd hd
    obtain rfl : cc = cd := Option.some.inj (Except.ok.inj hd)
    exact h.cached c cc hc
  · rcases hl : s.loadSource Γ n c with ⟨x, t⟩
    rw [hl] at hread
    match x with
    | .error e => exact ⟨h.read hread, fun cd hd => nomatch hd⟩
    | .ok none => exact ⟨h.read hread, fun cd hd => nomatch hd⟩
    | .ok (some src) =>
      dsimp only
      split
      · exact ⟨h.read hread, fun cd hd => nomatch hd⟩
      · rename_i heap _
        have hb := backed_of_loadSource heap h hn (show (s.loadSource Γ n c).1 = .ok (some src) by rw [hl])
        rw [hl] at hb
        refine ⟨(h.read hread).insert hb, ?_⟩
        intro cd hd
        obtain rfl := Option.some.inj (Except.ok.inj hd)
        exact ⟨hb.root, hb.made, hb.shown⟩

theorem read_viewHost {root : Nat} {h : HostCall} : Read s (s.viewHost Γ c root h).2 := by
  have hrefl : Read s s := ⟨rfl, rfl, rfl, rfl, fun k r hr _ => ⟨r, hr, .refl r⟩⟩
  unfold viewHost
  split
  · split
    · exact hrefl
    · exact read_getGranule
  all_goals exact hrefl

/-- A view's code in a backed context keeps the invariant. -/
theorem Inv.runView {cc : ReaderContext} {script : Script} {m : Nat} (h : s.Inv Γ) (hb : s.Backed Γ c cc) :
    (GrainReader.runView Γ c cc script m s).2.Inv Γ := by
  have hsave : ∀ heap, (s.saveHeap c cc heap).Inv Γ := fun heap => h.insert ⟨hb.root, hb.made, hb.shown⟩
  induction script generalizing s m with
  | done r heap => exact hsave heap
  | throw text heap => exact hsave heap
  | step heap k ih =>
    cases m with
    | zero => exact hsave heap
    | succ m => exact ih h hb hsave
  | call heap hc k ih =>
    have hread : Read s (s.viewHost Γ c cc.root hc).2 := read_viewHost
    unfold GrainReader.runView
    rcases hv : s.viewHost Γ c cc.root hc with ⟨x, t⟩
    rw [hv] at hread
    match x with
    | .error e => exact h.read hread
    | .ok r =>
      exact ih r heap (h.read hread) (hb.read hread)
        fun heap => (h.read hread).insert ⟨(hb.read hread).root, (hb.read hread).made, (hb.read hread).shown⟩

theorem Inv.clientMsg {m : ClientMsg} (h : s.Inv Γ) : (s.clientMsg Γ parse m).2.Inv Γ := by
  unfold GrainReader.clientMsg
  cases m with
  | getContractDataREQ d key =>
    dsimp only
    split
    · exact h
    · exact h.read read_getGranule
  | getContractREQ d =>
    dsimp only
    split
    · exact h
    · rename_i n _
      have hr1 : Read s (s.within n (ReadTree.getNoCreate Γ s.db (.contract d) Payload.contract?)).2 := read_within
      rcases hw : s.within n (ReadTree.getNoCreate Γ s.db (.contract d) Payload.contract?) with ⟨x, t⟩
      rw [hw] at hr1
      have ht := h.read hr1
      match x with
      | .error e => exact ht
      | .ok none => exact ht
      | .ok (some con) =>
        have hr2 : Read t (t.within n (ReadTree.getNoCreate Γ t.db (.contractActivity d) Payload.contractActivity?)).2 := read_within
        dsimp only
        rcases hw2 : t.within n (ReadTree.getNoCreate Γ t.db (.contractActivity d) Payload.contractActivity?) with ⟨y, t2⟩
        rw [hw2] at hr2
        match y with
        | .error e => exact ht.read hr2
        | .ok none => exact ht.read hr2
        | .ok (some act) => exact ht.read hr2
  | callViewREQ d view paramsJson points =>
    dsimp only
    split
    · exact h
    · rename_i n hn
      obtain ⟨hi, hb⟩ := h.getContract (c := d) hn
      rcases hg : s.getContract Γ n d with ⟨x, t⟩
      rw [hg] at hi hb
      match x with
      | .error e => exact hi
      | .ok none => exact hi
      | .ok (some cc) =>
        dsimp only
        split
        · exact hi
        · split
          · exact hi
          · split
            · exact hi
            · exact hi.runView (hb cc rfl)

theorem rooted_getRoot {db : StdMap Path Packed} {lastBlock : Option Hash} {r : ReadTree} (h : getRoot db lastBlock = .ok r) :
    r.Rooted := by
  have he : ReadTree.empty.Rooted := rfl
  unfold getRoot at h
  split at h
  · obtain rfl := Except.ok.inj h
    exact he
  · split at h
    · split at h
      · obtain rfl := Except.ok.inj h
        unfold ReadTree.Rooted
        rw [ReadTree.insert_cells_self]
        rfl
      · nomatch h
    · obtain rfl := Except.ok.inj h
      exact he

/-- A new root keeps the invariant: no context points to it. -/
theorem Inv.installRoot (h : s.Inv Γ) (hi : s.installRoot = .ok s') : s'.Inv Γ := by
  unfold GrainReader.installRoot at hi
  rcases hg : getRoot s.db s.lastBlock with e | r
  · rw [hg] at hi
    nomatch hi
  · rw [hg] at hi
    obtain rfl := Except.ok.inj hi
    constructor
    · intro n hn
      obtain rfl : s.made = n := Option.some.inj hn
      exact ⟨Nat.lt_succ_self _, r, if_pos rfl, rooted_getRoot hg⟩
    · intro c cc hc
      have hb := h.cached c cc hc
      refine ⟨rfl, Nat.lt_succ_of_lt hb.made, ?_⟩
      intro hroot
      have heq : s.made = cc.root := Option.some.inj hroot
      have := hb.made
      omega

theorem Inv.step (h : s.Inv Γ) (e : Event) : (s.step Γ parse e).Inv Γ := by
  cases e with
  | written batch lastBlock => exact ⟨h.live, fun c cc hc => ⟨(h.cached c cc hc).root, (h.cached c cc hc).made,
      (h.cached c cc hc).shown⟩⟩
  | serviceInit =>
    change s.serviceInit.Inv Γ
    unfold GrainReader.serviceInit
    split
    · rename_i t ht
      refine ⟨(h.installRoot ht).live, ?_⟩
      intro c cc hc
      rw [show (∅ : StdMap String ReaderContext)[c]? = none from Std.ExtTreeMap.getElem?_empty] at hc
      nomatch hc
    · exact h
  | invalidateRoot =>
    change s.invalidateRoot.Inv Γ
    unfold GrainReader.invalidateRoot
    split
    · rename_i t ht
      exact h.installRoot ht
    · exact h
  | clientMsg m => exact h.clientMsg

theorem Inv.run (es : List Event) (h : s.Inv Γ) : (run Γ parse es s).Inv Γ := by
  induction es generalizing s with
  | nil => exact h
  | cons e es ih => exact ih (h.step e)

/-- The service before its first event. -/
theorem inv_init : Inv Γ {} := by
  constructor
  · intro n hn
    nomatch hn
  · intro c cc hc
    rw [show (∅ : StdMap String ReaderContext)[c]? = none from Std.ExtTreeMap.getElem?_empty] at hc
    nomatch hc

/-! ## Evaluation -/

/-- A backed context of the current root has the source that the root has. -/
theorem Inv.loadSource_of_cached {cc : ReaderContext} (h : s.Inv Γ) (hn : s.root = some n)
    (hc : s.contractCache[c]? = some cc) (hroot : cc.root = n) : (s.loadSource Γ n c).1 = .ok (some cc.src) := by
  subst hroot
  obtain ⟨r, con, hr, hs, hsrc⟩ := (h.cached c cc hc).shown hn
  rw [loadSource_fst hr, hs.getNoCreate_eq, ← hsrc]
  rfl

theorem evaluatedInRoot_iff (h : s.Inv Γ) : s.EvaluatedInRoot Γ c ↔ ¬ s.Stale c := by
  constructor
  · rintro he ⟨cc, hc, hne⟩
    obtain ⟨n, hn⟩ := Option.isSome_iff_exists.1 (h.cached c cc hc).root
    have hg : (s.getContract Γ n c).1 = .ok (some cc) := by
      unfold GrainReader.getContract
      rw [hc]
    obtain ⟨hroot, -⟩ := he n cc hn hg
    exact hne (by rw [hn, hroot])
  · intro hs n cc hn hg
    unfold GrainReader.getContract at hg
    split at hg
    · rename_i cd hc
      obtain rfl : cd = cc := Option.some.inj (Except.ok.inj hg)
      have hroot : cd.root = n := by
        by_contra hne
        refine hs ⟨cd, hc, ?_⟩
        rw [hn]
        intro he
        exact hne (Option.some.inj he).symm
      exact ⟨hroot, h.loadSource_of_cached hn hc hroot⟩
    · split at hg
      · nomatch hg
      · nomatch hg
      · rename_i src t hl
        dsimp only at hg
        split at hg
        · nomatch hg
        · obtain rfl := Option.some.inj (Except.ok.inj hg)
          exact ⟨rfl, by rw [hl]⟩

/-! ## Agreement -/

/-- A view's code gets the granules that the current root has, however many it reads. -/
theorem runView_eq (cc : ReaderContext) {r : ReadTree} {granule : String → Except Stop (Option String)} {script : Script}
    {m : Nat} (hr : s.roots cc.root = some r) (hroot : r.Rooted)
    (hg : ∀ key, (s.getGranule Γ cc.root c key).1 = granule key) :
    (runView Γ c cc script m s).1 = answerView granule script m := by
  induction script generalizing s r m with
  | done r heap => rfl
  | throw text heap => rfl
  | step heap k ih =>
    cases m with
    | zero => rfl
    | succ m => exact ih hr hroot hg
  | call heap hc k ih =>
    have hread : Read s (s.viewHost Γ c cc.root hc).2 := read_viewHost
    have hans : (s.viewHost Γ c cc.root hc).1 = answerHost granule hc := by
      cases hc with
      | getGranule key =>
        by_cases hk : key = ""
        · simp only [viewHost, answerHost, if_pos hk]
        · simp only [viewHost, answerHost, if_neg hk, hg]
      | _ => rfl
    unfold runView answerView
    rcases hv : s.viewHost Γ c cc.root hc with ⟨x, t⟩
    rw [hv] at hread hans
    rw [← hans]
    rcases x with e | res
    · rfl
    · obtain ⟨r', hr', hreads⟩ := hread.roots _ r hr hroot
      exact ih res heap hr' (hreads.rooted hroot) fun key => (hread.getGranule_eq hr hroot).trans (hg key)

/-- `get_contract` for a contract without a stale context: the context has the root's source, and the granules that are read
after it are those that would have been read before. -/
theorem Inv.getContract_fresh {src : String} (h : s.Inv Γ) (hs : ¬ s.Stale c) (hn : s.root = some n)
    (hl : (s.loadSource Γ n c).1 = .ok (some src)) :
    match s.heapOf Γ c src with
    | none => (s.getContract Γ n c).1 = .ok none
    | some heap => ∃ t r, s.getContract Γ n c = (.ok (some { src := src, heap := heap, root := n }), t) ∧
        t.roots n = some r ∧ r.Rooted ∧ ∀ key, (t.getGranule Γ n c key).1 = (s.getGranule Γ n c key).1 := by
  obtain ⟨-, r, hr, hroot⟩ := h.live n hn
  unfold heapOf GrainReader.getContract
  rcases hc : s.contractCache[c]? with _ | cc
  · dsimp only
    have hread := read_loadSource (Γ := Γ) (s := s) (n := n) (c := c)
    rcases hls : s.loadSource Γ n c with ⟨x, t⟩
    rw [hls] at hl hread
    obtain rfl : x = .ok (some src) := hl
    obtain ⟨r', hr', hreads⟩ := hread.roots n r hr hroot
    dsimp only
    rcases Γ.load src with _ | heap
    · rfl
    · refine ⟨_, r', rfl, hr', hreads.rooted hroot, ?_⟩
      intro key
      have hcache : ∀ m, (GrainReader.getGranule Γ { t with contractCache := m } n c key).1 = (t.getGranule Γ n c key).1 := by
        intro m
        exact (getGranule_fst (s := { t with contractCache := m }) hr').trans (getGranule_fst (s := t) hr').symm
      exact (hcache _).trans (hread.getGranule_eq hr hroot)
  · dsimp only
    have hcr : cc.root = n := by
      by_contra hne
      refine hs ⟨cc, hc, ?_⟩
      rw [hn]
      intro he
      exact hne (Option.some.inj he).symm
    have hsrc : cc.src = src := by
      have := h.loadSource_of_cached hn hc hcr
      rw [hl] at this
      exact (Option.some.inj (Except.ok.inj this)).symm
    refine ⟨s, r, ?_, hr, hroot, fun key => rfl⟩
    obtain ⟨⟨csrc, cheap⟩, croot⟩ := cc
    obtain rfl : csrc = src := hsrc
    obtain rfl : croot = n := hcr
    rfl

/-- `get_contract` for a contract that the current root does not have, without a stale context. -/
theorem Inv.getContract_none (h : s.Inv Γ) (hs : ¬ s.Stale c) (hn : s.root = some n)
    (hl : (s.loadSource Γ n c).1 = .ok none) : (s.getContract Γ n c).1 = .ok none := by
  unfold GrainReader.getContract
  rcases hc : s.contractCache[c]? with _ | cc
  · rcases hls : s.loadSource Γ n c with ⟨x, t⟩
    rw [hls] at hl
    obtain rfl : x = .ok none := hl
    rfl
  · exfalso
    by_cases hcr : cc.root = n
    · have := h.loadSource_of_cached hn hc hcr
      rw [hl] at this
      nomatch this
    · refine hs ⟨cc, hc, ?_⟩
      rw [hn]
      intro he
      exact hcr (Option.some.inj he).symm

/-- What a `GetContractREQ` shows is what `get_contract` would load. -/
theorem loadSource_of_getContractREQ (parse : String → Except String Json) (c : String) (hn : s.root = some n) :
    (∀ con ttl time, (s.clientMsg Γ parse (.getContractREQ c)).1 = .ok (.getContractRSP (some (con, ttl, time))) →
      (s.loadSource Γ n c).1 = .ok (some con.src)) ∧
    ((s.clientMsg Γ parse (.getContractREQ c)).1 = .ok (.getContractRSP none) → (s.loadSource Γ n c).1 = .ok none) := by
  unfold GrainReader.clientMsg
  rw [hn]
  dsimp only
  have hl : (s.loadSource Γ n c).1 =
      (s.within n (ReadTree.getNoCreate Γ s.db (.contract c) Payload.contract?)).1.map (·.map (·.2.src)) := rfl
  rw [hl]
  rcases s.within n (ReadTree.getNoCreate Γ s.db (.contract c) Payload.contract?) with ⟨x, t⟩
  match x with
  | .error e => exact ⟨fun con ttl time hc => (nomatch hc), fun hc => (nomatch hc)⟩
  | .ok none => exact ⟨fun con ttl time hc => (nomatch Except.ok.inj hc), fun _ => rfl⟩
  | .ok (some (o, con')) =>
    dsimp only
    rcases t.within n (ReadTree.getNoCreate Γ t.db (.contractActivity c) Payload.contractActivity?) with ⟨y, t2⟩
    match y with
    | .error e => exact ⟨fun con ttl time hc => (nomatch hc), fun hc => (nomatch hc)⟩
    | .ok none => exact ⟨fun con ttl time hc => (nomatch hc), fun hc => (nomatch hc)⟩
    | .ok (some act) =>
      refine ⟨?_, fun hc => (nomatch Except.ok.inj hc)⟩
      intro con ttl time hc
      have := Option.some.inj (ClientReply.getContractRSP.inj (Except.ok.inj hc))
      rw [← (Prod.mk.inj this).1]
      rfl

/-- The answer to a `GetContractDataREQ` shows what was found. -/
theorem map_getContractDataRSP_inj {x y : Except Stop (Option String)}
    (h : x.map ClientReply.getContractDataRSP = y.map ClientReply.getContractDataRSP) : x = y := by
  cases x with
  | error e =>
    cases y with
    | error e' => exact congrArg _ (Except.error.inj h)
    | ok v' => nomatch h
  | ok v =>
    cases y with
    | error e' => nomatch h
    | ok v' => exact congrArg _ (ClientReply.getContractDataRSP.inj (Except.ok.inj h))

theorem Inv.agreesWithReads {view paramsJson : String} {points : Nat} (h : s.Inv Γ) (hs : ¬ s.Stale c) :
    s.AgreesWithReads Γ parse c view paramsJson points := by
  intro granule hg
  rcases hn : s.root with _ | n
  · have hnone : ∀ m, (s.clientMsg Γ parse m).1 = .error (.exn .nullDeref) := by
      intro m
      unfold GrainReader.clientMsg
      rw [hn]
      cases m <;> rfl
    rw [hnone]
    exact ⟨fun con ttl time hc => (nomatch hc), fun hc => (nomatch hc)⟩
  have hgr : ∀ key, (s.getGranule Γ n c key).1 = granule key := by
    intro key
    have hk := hg key
    unfold GrainReader.clientMsg at hk
    rw [hn] at hk
    dsimp only at hk
    exact map_getContractDataRSP_inj hk
  obtain ⟨hfound, hmissing⟩ := loadSource_of_getContractREQ (Γ := Γ) parse c hn
  constructor
  · intro con ttl time hc
    have hspec := h.getContract_fresh hs hn (hfound con ttl time hc)
    unfold answerCallView
    unfold GrainReader.clientMsg
    rw [hn]
    dsimp only
    rcases hh : s.heapOf Γ c con.src with _ | heap
    · rw [hh] at hspec
      dsimp only at hspec ⊢
      rcases hgc : s.getContract Γ n c with ⟨x, t⟩
      rw [hgc] at hspec
      obtain rfl : x = .ok none := hspec
      rfl
    · rw [hh] at hspec
      obtain ⟨t, r, hgc, hr, hroot, hsame⟩ := hspec
      rw [hgc]
      dsimp only
      split
      · rfl
      · rcases (if paramsJson = "" then Except.ok (Json.obj []) else parse paramsJson) with what | params
        · rfl
        · dsimp only
          rcases Γ.view con.src heap view params with _ | script
          · rfl
          · exact congrArg (Except.map viewReply) (runView_eq { src := con.src, heap := heap, root := n } hr hroot
              fun key => (hsame key).trans (hgr key))
  · intro hc
    have hspec := h.getContract_none hs hn (hmissing hc)
    unfold GrainReader.clientMsg
    rw [hn]
    dsimp only
    rcases hgc : s.getContract Γ n c with ⟨x, t⟩
    rw [hgc] at hspec
    obtain rfl : x = .ok none := hspec
    rfl

/-- After any events, a `CallViewREQ` is evaluated in the current root, and agrees with the other requests, if and only if the
contract's context is not from before the latest `InvalidateRoot`. -/
theorem views_current (Γ : Ctx) (parse : String → Except String Json) (es : List Event) (c view paramsJson : String)
    (points : Nat) :
    ((run Γ parse es {}).EvaluatedInRoot Γ c ∧ (run Γ parse es {}).AgreesWithReads Γ parse c view paramsJson points) ↔
      ¬ (run Γ parse es {}).Stale c := by
  have h : (run Γ parse es {}).Inv Γ := inv_init.run es
  constructor
  · intro hx
    exact (evaluatedInRoot_iff h).1 hx.1
  · intro hs
    exact ⟨(evaluatedInRoot_iff h).2 hs, h.agreesWithReads hs⟩

/-! ## A view after an update -/

namespace Example

/-- A state with the leaves of the contract `c`: its source and its activity. -/
def granules (src : String) : List (Path × Packed) :=
  let con : Packed := { idx := .bcContract, data := some { payload := .contract { src := src } } }
  let act : Packed := { idx := .bcContractActivity, data := some { payload := .contractActivity "c" } }
  let up (id : Nat) (b : Packed) : Packed := { hashes := (∅ : StdMap Nat Hash).insert id b.hash }
  let low : Packed := { hashes := ((∅ : StdMap Nat Hash).insert 0 con.hash).insert 1 act.hash }
  [([1, 2, 3, 4, 0], con), ([1, 2, 3, 4, 1], act), ([1, 2, 3, 4], low), ([1, 2, 3], up 4 low), ([1, 2], up 3 (up 4 low)),
    ([1], up 2 (up 3 (up 4 low))), ([], up 1 (up 2 (up 3 (up 4 low))))]

/-- A block that leaves this state. -/
def block (src : String) : Event :=
  .written { cells := (granules src).foldl (fun m z => m.insert z.1 z.2) ∅ } none

/-- The view is called, the contract updated by a block, and the root replaced. -/
def events : List Event :=
  [block "1", .serviceInit, .clientMsg (.callViewREQ "c" "v" "" 0), block "2", .invalidateRoot]

/-- A world in which every source has a view that returns the source. -/
def ctx : Ctx :=
  { Sample.ctx [] (fun _ => none) with
    path := fun n => [1, 2, 3, 4, Sample.ident [(Name.contract "c").text, (Name.contractActivity "c").text] n]
    path_inj := fun a b h => by simpa [(Sample.ident_injective _).eq_iff] using h
    view := fun src _ _ _ => some (.done src 0) }

end Example

/-- After the contract's source has been replaced by a block, the view still runs the old one, in a root that is released. -/
theorem views_current_false : ¬ ∀ (Γ : Ctx) (parse : String → Except String Json) (es : List Event)
    (c view paramsJson : String) (points : Nat),
    (run Γ parse es {}).EvaluatedInRoot Γ c ∧ (run Γ parse es {}).AgreesWithReads Γ parse c view paramsJson points := by
  intro h
  have he := (h Example.ctx (fun _ => .error "") Example.events "c" "v" "" 0).1
  have hroot : (run Example.ctx (fun _ => .error "") Example.events {}).root = some 1 := by decide +kernel
  have hcached : ((run Example.ctx (fun _ => .error "") Example.events {}).contractCache["c"]?).map
      (fun cc => (cc.src, cc.root)) = some ("1", 0) := by decide +kernel
  obtain ⟨cc, hc, hsrc⟩ := Option.map_eq_some_iff.1 hcached
  have hg : ((run Example.ctx (fun _ => .error "") Example.events {}).getContract Example.ctx 1 "c").1 = .ok (some cc) := by
    unfold GrainReader.getContract
    rw [hc]
  have h1 : cc.root = 1 := (he 1 cc hroot hg).1
  have h0 : cc.root = 0 := (Prod.mk.inj hsrc).2
  omega

end GrainReader

end Grain
