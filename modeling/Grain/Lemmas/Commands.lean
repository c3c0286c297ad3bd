import Grain.Lemmas.Footprint

/-!
# The footprint of the root commands

Every root command asks only for what `Footprint` allows it, for any parameters and any answers of the store.
-/

namespace Grain

open Prog Eff

variable {Γ : Ctx} {ev : Evidence} {t : TParams} {c : Command}

attribute [local simp] getValuesNoCreate getStateNoCreate getNodeNoCreate getNodeListNoCreate getVotesNoCreate
  getContractNoCreate getContractActivityNoCreate getContractBalanceNoCreate getContractDataNoCreate emitCommand CanWrite
  fits_getNoCreate

/-! ## Tokens, nodes and contracts -/

theorem fits_executeMint (params : Json) (i : Nat) : Fits Γ ev t c (executeMint Γ params t i) fun _ => True := by
  simp +contextual [executeMint]

theorem fits_executeTransfer (params : Json) (i : Nat) : Fits Γ ev t c (executeTransfer Γ params t i) fun _ => True := by
  simp +contextual [executeTransfer]

theorem fits_executeNodeUpdate (params : Json) (b : BParams) (i : Nat) :
    Fits Γ ev t c (executeNodeUpdate Γ params b t i) fun _ => True := by
  simp +contextual [executeNodeUpdate]

theorem fits_checkNameChars {l : List Char} {Q : Unit → Prop} (h : Q ()) : Fits Γ ev t c (checkNameChars l) Q := by
  induction l with
  | nil => exact h
  | cons z zs ih => simp [checkNameChars, ih]

theorem fits_addNode {name : String} {Q : DataPtr → Prop} (h : ∀ d, ev.Handle d → Q d) :
    Fits Γ ev t c (addNode Γ name) Q := by
  simp +contextual [addNode, h]

theorem fits_executeNodeCreate (params : Json) (b : BParams) (i : Nat) :
    Fits Γ ev t c (executeNodeCreate Γ params b t i) fun _ => True := by
  simp +contextual [executeNodeCreate, fits_checkNameChars, fits_addNode]

theorem fits_executeNodeStake (params : Json) (b : BParams) (i : Nat) :
    Fits Γ ev t c (executeNodeStake Γ params b t i) fun _ => True := by
  simp +contextual [executeNodeStake]

theorem fits_executeUnstakeNode (params : Json) (i : Nat) :
    Fits Γ ev t c (executeUnstakeNode Γ params t i) fun _ => True := by
  simp +contextual [executeUnstakeNode, derefNode]

theorem fits_setNodeEnabled (on : Bool) (already command : String) (gas : Int) (params : Json) (i : Nat) :
    Fits Γ ev t c (setNodeEnabled Γ on already command gas params t i) fun _ => True := by
  simp +contextual [setNodeEnabled]

theorem fits_executeContractUpdate (params : Json) (i : Nat) :
    Fits Γ ev t c (executeContractUpdate Γ params t i) fun _ => True := by
  simp +contextual [executeContractUpdate]

theorem fits_executeContractDeploy (params : Json) (b : BParams) (i : Nat) :
    Fits Γ ev t c (executeContractDeploy Γ params b t i) fun _ => True := by
  unfold executeContractDeploy
  refine (safe_bind _ _ _).2 ((safe_lift _ _).2 fun name _ => (safe_bind _ _ _).2 (fits_checkNameChars ?_))
  refine (safe_bind _ _ _).2 ((fits_getNoCreate _ _ _).2 fun r _ => (safe_bind _ _ _).2 ((safe_failIf _ _ _).2 fun _ => ?_))
  refine (safe_bind _ _ _).2 ((fits_getAddress_orErr _ _ _).2 fun _ us _ hus => ?_)
  simp only [safe_bind, safe_lift, safe_failIf, getContractOrCreate, fits_createNew]
  intro ttl _ _ _ n _ _ hn src _
  simp only [safe_assign, safe_markDirty, Footprint, CanWrite, hn, Evidence.Answers, getContractActivityOrCreate, true_and,
    forall_const, and_true]
  refine fits_getOrCreate (by simp) fun act hact => ?_
  simp only [safe_orErr, Option.some.injEq, forall_eq', safe_setDirty, Footprint, hact, Evidence.Answers,
    getContractBalanceOrCreate, true_and, forall_const]
  refine fits_getOrCreate (by simp) fun ab hab => ?_
  simp only [safe_raiseIf, safe_need, Option.some.injEq, forall_eq', safe_addGas, ttlGas, safe_quot, Footprint, hab,
    Evidence.Answers, true_and, forall_const]
  intro _ _
  refine fits_get (by simp) fun st _ hst => ?_
  simp [hst, hus]

/-! ## Votes -/

theorem fits_votedStake (l : List String) (x : Int) : Fits Γ ev t c (votedStake Γ l x) fun _ => True := by
  induction l generalizing x with
  | nil => trivial
  | cons z zs ih => simp +contextual [votedStake, ih]

theorem fits_applyVote {votes : DataPtr} (hv : ev.Handle votes) (b : BParams) (i : Nat) (vhash param value : String)
    (voted : StdSet String) : Fits Γ ev t c (applyVote Γ b t i votes vhash param value voted) fun _ => True := by
  simp only [applyVote, safe_bind, safe_markDirty, Footprint, hv, Evidence.Answers, true_and, forall_const]
  refine (fits_votedStake _ _).post fun _ _ => ?_
  simp +contextual [hv]

theorem fits_executeVote (params : Json) (b : BParams) (i : Nat) :
    Fits Γ ev t c (executeVote Γ params b t i) fun _ => True := by
  unfold executeVote
  refine (safe_bind _ _ _).2 ((fits_getNoCreate _ _ _).2 fun _ _ => (safe_bind _ _ _).2 (fits_get ?_ fun votes _ hv => ?_))
  · simp +contextual
  · simp only [safe_bind, safe_lift, getNodeNoCreate, safe_failIf, safe_need]
    intro node _ param _ value _ ttl _
    refine fits_get (by simp) fun n _ _ => (safe_orErr _ _ _).2 ?_
    rintro _ - - _ ⟨⟩
    split
    · simp only [safe_bind, safe_failIf, safe_assign, safe_lift, Footprint, CanWrite, hv, Evidence.Answers, true_and, forall_const]
      intro _ z _
      exact (fits_applyVote hv _ _ _ _ _ _).post fun _ _ => by simp
    · split
      · simp [hv]
      · simp only [safe_bind, safe_assign, Footprint, CanWrite, hv, Evidence.Answers, true_and, forall_const]
        exact (fits_applyVote hv _ _ _ _ _ _).post fun _ _ => by simp

/-! ## Keys -/

theorem fits_addKey {u : DataPtr} {type : Nat} {kb : String} {Q : Option Nat → Prop}
    (hu : ∀ k, CanWrite Γ ev t c u (.insertKey k)) (h : ∀ x, Q x) : Fits Γ ev t c (addKey u type kb) Q := by
  simp only [addKey, derefAddress, safe_bind, safe_deref, safe_pure, Footprint, Evidence.Answers, true_and, forall_const]
  intro o
  split
  · exact h _
  · simp only [safe_bind, safe_assign, safe_pure]
    exact ⟨hu ⟨0, type, kb⟩, fun _ => h _⟩

theorem fits_executeAddAddressKey (hc : c.contract = "root") (hm : c.method = "add_address_key") (i : Nat) :
    Fits Γ ev t c (executeAddAddressKey Γ c.params t i) fun _ => True := by
  simp only [executeAddAddressKey, safe_bind, safe_lift]
  intro hex hhex type _ kbHex _ sigHex _ addr haddr
  refine (fits_getAddressStateNoCreate _ _).2 fun _ => fits_get (by simp) fun u hu huh => (safe_orErr _ _ _).2 ?_
  rintro _ ⟨⟩
  simp only [safe_failIf, checkKey, safe_bind]
  intro howner _ _ _ _ _ _ _ _ _
  have hcmd : OwnerCommand Γ ev t c u.ptr := ⟨hex, addr, u, hc, .inl hm, hhex, haddr, hu, rfl, by simpa using howner⟩
  refine fits_addKey (fun _ => ⟨huh, .inl hcmd⟩) fun x => (safe_orErr _ _ _).2 fun id _ => ?_
  simp [huh]

theorem fits_executeRemoveAddressKey (hc : c.contract = "root") (hm : c.method = "remove_address_key") (i : Nat) :
    Fits Γ ev t c (executeRemoveAddressKey Γ c.params t i) fun _ => True := by
  simp only [executeRemoveAddressKey, safe_bind, safe_lift]
  intro hex hhex keyId _ addr haddr
  refine (fits_getAddressStateNoCreate _ _).2 fun _ => fits_get (by simp) fun u hu huh => (safe_orErr _ _ _).2 ?_
  rintro _ ⟨⟩
  simp only [safe_failIf]
  intro howner _ _
  have hcmd : OwnerCommand Γ ev t c u.ptr := ⟨hex, addr, u, hc, .inr hm, hhex, haddr, hu, rfl, by simpa using howner⟩
  simp [huh, hcmd]

theorem fits_parseKeys (items : List Json) : Fits Γ ev t c (parseKeys items) fun _ => True := by
  induction items with
  | nil => trivial
  | cons item items ih => 
    simp only [parseKeys, safe_bind, safe_lift, checkKey, safe_failIf]
    intros
    exact ih.post fun _ _ => trivial

theorem fits_addKeys {u : DataPtr} (hu : ∀ k, CanWrite Γ ev t c u (.insertKey k)) (ks : List (Nat × String)) :
    Fits Γ ev t c (addKeys u ks) fun _ => True := by
  induction ks with
  | nil => trivial
  | cons k ks ih =>
    simp only [addKeys, safe_bind]
    exact fits_addKey hu fun x => (safe_orErr _ _ _).2 fun _ _ => ih

theorem fits_getAddressStateOrCreate {addr : String} {Q : Option DataPtr → Prop} (h0 : Q none)
    (h : ∀ b d o', ev.made (Γ.path (Name.addressState addr).text) { payload := .addressState {} } (b, d, o') → ev.Handle d →
      Q (some d)) : Fits Γ ev t c (getAddressStateOrCreate Γ addr) Q := by
  simp only [getAddressStateOrCreate, checkAddr, safe_bind, safe_raiseIf, fits_create]
  intro _ b d o' hm hd
  cases b
  · simp +contextual [h _ _ _ hm hd]
  · cases hc : o'.payload.address? <;> simp [castTo, hc, h0, h _ _ _ hm hd]

theorem fits_executeCreateAddress (params : Json) (b : BParams) (i : Nat) :
    Fits Γ ev t c (executeCreateAddress Γ params b t i) fun _ => True := by
  simp only [executeCreateAddress, safe_bind, safe_lift, safe_failIf]
  intro hex _ addr _ _
  refine (fits_getAddressStateNoCreate _ _).2 fun _ => (fits_getNoCreate _ _ _).2 fun r hr hnone => ?_
  simp only [safe_orErr]
  intro items _ _
  refine (fits_parseKeys items).post fun parsed _ => ?_
  refine fits_getAddressStateOrCreate (by simp) fun b' d o' hm hd => ?_
  rintro _ ⟨⟩
  have hnew : NewAddress Γ ev d := ⟨addr, r, _, b', o', hr, by simpa using hnone, hm⟩
  refine (fits_addKeys (fun _ => ⟨hd, .inr hnew⟩) parsed).post fun _ _ => ?_
  simp [hd]

/-! ## Garbage collection -/

theorem fits_writeIf {τ : Type} {ws : List Write} {x : Option (Leaf τ)}
    (h : ∀ l, x = some l → ev.Handle l.ptr ∧ ∀ w ∈ ws, CanWrite Γ ev t c l.ptr w) :
    Fits Γ ev t c (writeIf ws x) fun _ => True := by
  cases x with
  | none => trivial
  | some l =>
    obtain ⟨hl, hw⟩ := h l rfl
    refine (safe_bind _ _ _).2 (Safe.post (safe_forM fun w hw' => ?_) fun _ _ => by simp [hl])
    simp only [safe_assign, Footprint, Evidence.Answers]
    exact ⟨hw w hw', fun _ => trivial⟩

/-- Write a leaf that may be missing; the writes are to no keys and no nonce. -/
theorem fits_get_writeIf {τ : Type} (n : Name) (cast : Payload → Option τ) {ws : List Write}
    (h : ∀ w ∈ ws, ∀ d, ev.Handle d → CanWrite Γ ev t c d w) :
    Fits Γ ev t c (getNoCreate Γ n cast >>= writeIf ws) fun _ => True := by
  refine (safe_bind _ _ _).2 (fits_get trivial fun l hl hh => fits_writeIf ?_)
  rintro _ ⟨⟩
  exact ⟨hh, fun w hw => h w hw _ hh⟩

theorem fits_getAddress_writeIf (addr : String) {ws : List Write} (h : ∀ w ∈ ws, ∀ d, ev.Handle d → CanWrite Γ ev t c d w) :
    Fits Γ ev t c (getAddressStateNoCreate Γ addr >>= writeIf ws) fun _ => True := by
  refine (safe_bind _ _ _).2 ((fits_getAddressStateNoCreate _ _).2 fun _ => ?_)
  exact (safe_bind _ _ _).1 (fits_get_writeIf (.addressState addr) Payload.address? h)

/-- The evidence for a leaf that was found under a key or a name. -/
theorem Evidence.Found.deletable {τ : Type} {n : Name} {cast : Payload → Option τ} {l : Leaf τ}
    (h : ev.Found (Γ.path n.text) cast l) (hc : ∀ p v, cast p = some v → Evidence.Deletable p) :
    ∃ o, ev.Shown l.ptr o ∧ Evidence.Deletable o.payload :=
  ⟨l.obj, h.shown, hc _ _ h.choose_spec.2⟩

theorem deletable_of_cast :
    (∀ p v, Payload.contractData? p = some v → Evidence.Deletable p) ∧
    (∀ p v, Payload.contract? p = some v → Evidence.Deletable p) ∧
    (∀ p v, Payload.contractBalance? p = some v → Evidence.Deletable p) ∧
    (∀ p v, Payload.contractActivity? p = some v → Evidence.Deletable p) ∧
    (∀ p v, Payload.node? p = some v → Evidence.Deletable p) := by
  refine ⟨?_, ?_, ?_, ?_, ?_⟩ <;> intro p v h <;> cases p <;> trivial

theorem fits_gcGranuleApply {d : DataPtr} {o : DataObj} (hd : ev.Shown d o) (now : Int) :
    Fits Γ ev t c (gcGranuleApply now (some (d, o))) fun _ => True := by
  simp only [gcGranuleApply, safe_bind, safe_orErr, castTo_eq_some, safe_failIf, safe_deleteGranule]
  rintro l ⟨h, hl⟩ _ _
  obtain ⟨rfl, rfl⟩ : d = l.ptr ∧ o = l.obj := by simpa using h
  exact ⟨⟨rfl, _, hd, deletable_of_cast.1 _ _ hl⟩, fun _ _ => trivial⟩

theorem fits_eraseFromOwners (cn : String) (now : Int) (l : List String) :
    Fits Γ ev t c (eraseFromOwners Γ cn now l) fun _ => True := by
  induction l with
  | nil => trivial
  | cons owner l ih =>
    simp only [eraseFromOwners]
    refine (safe_bind _ _ _).2 ((fits_getAddress_writeIf owner ?_).post fun _ _ => ih)
    simp +contextual

theorem fits_burnContractBalance (n : String) :
    Fits Γ ev t c (getContractBalanceNoCreate Γ n >>= burnContractBalance Γ) fun _ => True := by
  refine (safe_bind _ _ _).2 (fits_get trivial fun bal hbal hh => ?_)
  simp only [burnContractBalance, safe_bind, safe_doIf, safe_deleteGranule]
  have hdel := hbal.deletable deletable_of_cast.2.2.1
  refine ⟨fun _ => ?_, fun _ => by simp [hdel]⟩
  refine (safe_bind _ _ _).1 ((fits_get_writeIf .state Payload.state? ?_).post fun _ _ => ⟨⟨rfl, hdel⟩, fun _ _ => trivial⟩)
  simp +contextual

theorem fits_gcContractApply {d : DataPtr} {o : DataObj} (hd : ev.Shown d o) (now : Int) :
    Fits Γ ev t c (gcContractApply Γ now (some (d, o))) fun _ => True := by
  unfold gcContractApply
  refine (safe_bind _ _ _).2 ((safe_orErr _ _ _).2 fun act hact => ?_)
  obtain ⟨h, hl⟩ := castTo_eq_some.1 hact
  obtain ⟨rfl, rfl⟩ : d = act.ptr ∧ o = act.obj := by simpa using h
  have hdel : ∃ o, ev.Shown act.ptr o ∧ Evidence.Deletable o.payload := ⟨_, hd, deletable_of_cast.2.2.2.1 _ _ hl⟩
  refine (safe_bind _ _ _).2 ((safe_failIf _ _ _).2 fun _ => (safe_bind _ _ _).2 ((safe_failIf _ _ _).2 fun _ => ?_))
  -- whatever the lookup of the contract gives, its owners are cleared and it is deleted if it is there
  have hrest : ∀ contract : Option (Leaf BcContract),
      (∀ l, contract = some l → ∃ o, ev.Shown l.ptr o ∧ Evidence.Deletable o.payload) →
      Fits Γ ev t c (do
        eraseFromOwners Γ act.val now (ownersOf contract)
        getContractBalanceNoCreate Γ act.val >>= burnContractBalance Γ
        deleteIf contract
        deleteGranule act.ptr .saveZ) fun _ => True := by
    intro contract hcon
    refine (safe_bind _ _ _).2 ((fits_eraseFromOwners _ _ _).post fun _ _ => ?_)
    refine (safe_bind _ _ _).2 ((fits_burnContractBalance _).post fun _ _ => ?_)
    rcases contract with _ | l
    · simp [deleteIf, hdel]
    · simp [deleteIf, hdel, hcon l rfl]
  refine (safe_bind _ _ _).2 (fits_get (hrest none (by simp)) fun l hl _ => hrest (some l) ?_)
  rintro _ ⟨⟩
  exact hl.deletable deletable_of_cast.2.1

theorem fits_returnStakes (name : String) (now : Int) (l : List (String × Int)) (total : Int) :
    Fits Γ ev t c (returnStakes Γ name now l total) fun _ => True := by
  induction l generalizing total with
  | nil => trivial
  | cons x l ih =>
    unfold returnStakes
    split
    · exact ih total
    · refine (safe_bind _ _ _).2 ((fits_getAddress_writeIf x.1 ?_).post fun _ _ => ih _)
      simp +contextual

theorem fits_gcNodeApply {d : DataPtr} {o : DataObj} (hd : ev.Shown d o) (now : Int) :
    Fits Γ ev t c (gcNodeApply Γ now (some (d, o))) fun _ => True := by
  unfold gcNodeApply
  refine (safe_bind _ _ _).2 ((safe_orErr _ _ _).2 fun n hn => ?_)
  obtain ⟨h, hl⟩ := castTo_eq_some.1 hn
  obtain ⟨rfl, rfl⟩ : d = n.ptr ∧ o = n.obj := by simpa using h
  have hdel : ∃ o, ev.Shown n.ptr o ∧ Evidence.Deletable o.payload := ⟨_, hd, deletable_of_cast.2.2.2.2 _ _ hl⟩
  refine (safe_bind _ _ _).2 ((safe_failIf _ _ _).2 fun _ => (safe_bind _ _ _).2 ((safe_failIf _ _ _).2 fun _ => ?_))
  refine (safe_bind _ _ _).2 ((fits_returnStakes _ _ _ _).post fun total _ => ?_)
  have hrest : Fits Γ ev t c (do
      getAddressStateNoCreate Γ n.val.ownerAddress >>= writeIf [.eraseOwnedNode n.val.name, .raiseUpdateTime now]
      getNodeListNoCreate Γ >>= writeIf [.removeNode n.val.name]
      getStateNoCreate Γ >>= writeIf [.addNodeCount (-1)]
      deleteGranule n.ptr .saveZ) fun _ => True := by
    refine (safe_bind _ _ _).2 ((fits_getAddress_writeIf _ ?_).post fun _ _ => ?_)
    · simp +contextual
    refine (safe_bind _ _ _).2 ((fits_get_writeIf .nodeList Payload.nodelist? ?_).post fun _ _ => ?_)
    · simp +contextual
    refine (safe_bind _ _ _).2 ((fits_get_writeIf .state Payload.state? ?_).post fun _ _ => ?_)
    · simp +contextual
    simp [hdel]
  refine (safe_bind _ _ _).2 ((safe_doIf _ _ _).2 ⟨fun _ => ?_, fun _ => hrest⟩)
  refine (fits_get_writeIf .state Payload.state? ?_).post fun _ _ => hrest
  simp +contextual

theorem fits_gcAddressApply {d : DataPtr} {o : DataObj} (hd : ev.Shown d o)
    (hgc : o.payload.address?.isSome → 0 < o.ttl → GcAddress Γ ev c d) (now : Int) :
    Fits Γ ev t c (gcAddressApply Γ now (some (d, o))) fun _ => True := by
  unfold gcAddressApply
  refine (safe_bind _ _ _).2 ((safe_orErr _ _ _).2 fun u hu => ?_)
  obtain ⟨h, hl⟩ := castTo_eq_some.1 hu
  obtain ⟨rfl, rfl⟩ : d = u.ptr ∧ o = u.obj := by simpa using h
  have hh : ev.Handle u.ptr := .inl ⟨_, hd⟩
  simp only [safe_bind, safe_failIf, safe_doIf]
  intro httl _ _ _ _
  have hkeys := hgc (by simp [hl]) (by omega)
  have hrest : Fits Γ ev t c (do
      assign u.ptr .clearBalance
      assign u.ptr .clearKeys
      assign u.ptr (.raiseUpdateTime now)
      markDirty u.ptr) fun _ => True := by
    simp [hh, hkeys]
  simp only [safe_bind] at hrest
  refine ⟨fun _ => ?_, fun _ => hrest⟩
  refine (safe_bind _ _ _).1 ((fits_get_writeIf .state Payload.state? ?_).post fun _ _ => hrest)
  simp +contextual

theorem fits_gcTry {m : Eff Unit} (h : Fits Γ ev t c m fun _ => True) (counted cnt : GcCounts) :
    Fits Γ ev t c (gcTry m counted cnt) fun _ => True := by
  refine safe_handle ((safe_bind _ _ _).2 (h.post fun _ _ => trivial)) fun e => ?_
  cases e <;> simp

theorem fits_gcItem {h : String} {z : Store.Look} (hz : ev.seen (Γ.pathFromHash h) (some z))
    (hgc : ∀ i d o, z = (i, some (d, o)) → o.payload.address?.isSome → 0 < o.ttl → GcAddress Γ ev c d) (now : Int)
    (cnt : GcCounts) : Fits Γ ev t c (gcItem Γ now cnt z) fun _ => True := by
  obtain ⟨i, x⟩ := z
  rcases x with _ | ⟨d, o⟩
  · trivial
  have hd : ev.Shown d o := ⟨_, i, Γ.pathFromHash_length h, hz⟩
  cases i with
  | bcContractData => exact fits_gcTry (fits_gcGranuleApply hd now) _ _
  | bcContractActivity => exact fits_gcTry (fits_gcContractApply hd now) _ _
  | bcNode => exact fits_gcTry (fits_gcNodeApply hd now) _ _
  | bcAddressState => exact fits_gcTry (fits_gcAddressApply hd (hgc _ d o rfl) now) _ _
  | _ => trivial

theorem fits_gcItems (hc : c.contract = "root") (hm : c.method = "gc") {items : List Json}
    (hi : (c.params.objGet "items").bind Json.elems? = some items) (now : Int) {l : List Json} (hl : ∀ x ∈ l, x ∈ items)
    (cnt : GcCounts) : Fits Γ ev t c (gcItems Γ now l cnt) fun _ => True := by
  induction l generalizing cnt with
  | nil => trivial
  | cons x l ih =>
    have ih' := ih fun y hy => hl y (List.mem_cons_of_mem _ hy)
    cases x with
    | str hex =>
      simp only [gcItems, gcKey, safe_bind, safe_lift]
      intro h hh
      split
      · exact ih' _
      · simp only [safe_bind, safe_look, Footprint, Γ.pathFromHash_length, Evidence.Answers, true_and]
        intro r hr
        rcases r with _ | z
        · exact ih' _
        · refine (fits_gcItem hr ?_ now cnt).post fun _ _ => ih' _
          rintro i d o rfl ha httl
          exact ⟨items, hex, h, i, o, hc, hm, hi, hl _ List.mem_cons_self, hh, hr, ha, httl⟩
    | _ => exact ih' _

theorem fits_executeGc (hc : c.contract = "root") (hm : c.method = "gc") (i : Nat) :
    Fits Γ ev t c (executeGc Γ c.params t i) fun _ => True := by
  unfold executeGc
  refine (safe_bind _ _ _).2 ((fits_get_orErr _ _ _ _).2 fun v _ _ => ?_)
  simp only [safe_bind, safe_failIf, safe_orErr]
  intro _ items hi
  refine (fits_gcItems hc hm hi _ (fun _ hx => hx) _).post fun cnt _ => ?_
  simp

/-- Every root command keeps to the footprint. -/
theorem fits_executeRoot (hc : c.contract = "root") (b : BParams) (i : Nat) :
    Fits Γ ev t c (executeRoot Γ b t i c.method c.params) fun _ => True := by
  unfold executeRoot
  split
  · exact fits_executeMint _ _
  · exact fits_executeTransfer _ _
  · exact fits_executeNodeCreate _ _ _
  · exact fits_executeNodeUpdate _ _ _
  · exact fits_executeNodeStake _ _ _
  · exact fits_executeUnstakeNode _ _
  · exact fits_setNodeEnabled _ _ _ _ _ _
  · exact fits_setNodeEnabled _ _ _ _ _ _
  · exact fits_executeContractDeploy _ _ _
  · exact fits_executeContractUpdate _ _
  · exact fits_executeVote _ _ _
  · rename_i hm
    exact fits_executeGc hc hm _
  · exact fits_executeCreateAddress _ _ _
  · rename_i hm
    exact fits_executeAddAddressKey hc hm _
  · rename_i hm
    exact fits_executeRemoveAddressKey hc hm _
  · trivial

end Grain
