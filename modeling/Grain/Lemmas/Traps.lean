import Grain.Lemmas.Calls
import Grain.Lemmas.Blocks

/-!
# No division by zero

A block divides in three places: by `ttl_seconds_per_gas`, for the gas of a time to live; by the gas that a token buys, which the
conversions check first; and by the full stake, when a vote is counted. Where the first and the last are not zero, no transaction
of a block traps, whatever the store answers and whatever the code of a contract does.
-/

namespace Grain

open Prog Eff

/-- The trap of a division by zero. -/
def divTrap : Stop := .exn .divByZero

/-- The answers that the store and the rollback can give: an exception is never the trap. -/
@[simp]
def Untrapped : (o : Op) → Resp o → Prop
  | .look _, .error e => e ≠ divTrap
  | .create _ _, .error e => e ≠ divTrap
  | .assign _ _, .error e => e ≠ divTrap
  | .rollback, .error e => e ≠ divTrap
  | _, _ => True

/-- A stop that is not the trap. -/
def Stop.Sound (e : Stop) : Prop := e ≠ divTrap

/-- The code ends with a value in `Q`, or stops without the trap. -/
abbrev Divides {α : Type} (m : Eff α) (Q : α → Prop) : Prop := Ends Untrapped Stop.Sound m Q

/-! ## The answers -/

theorem Store.replaceLeafNoCreate_ne {s : Store} {c : CellPtr} {id : Nat} {e : Fault} (h : s.replaceLeafNoCreate c id = .error e) :
    e.stop ≠ divTrap := by
  unfold replaceLeafNoCreate at h
  repeat' split at h
  all_goals cases h
  · exact nofun
  · exact nofun

theorem Store.resolve_ne {s : Store} {ids : Path} {c : CellPtr} {e : Fault} (h : s.resolve ids c = .error e) : e.stop ≠ divTrap := by
  induction ids generalizing c with
  | nil => cases h
  | cons id ids ih =>
    unfold resolve at h
    split at h
    · exact ih h
    · cases h
    · rename_i he
      cases h
      exact replaceLeafNoCreate_ne he

theorem Store.look_ne {s : Store} {p : Path} {e : Fault} (h : s.look p = .error e) : e.stop ≠ divTrap := by
  unfold look at h
  split at h
  · cases h
  · rename_i he
    cases h
    exact resolve_ne he

theorem Store.replaceLeafOrCreate_ne {s : Store} {roll : Bool} {c : CellPtr} {id : Nat} {e : Fault}
    (h : (s.replaceLeafOrCreate roll c id).1 = .error e) : e.stop ≠ divTrap := by
  unfold replaceLeafOrCreate at h
  split at h
  · exact replaceLeafNoCreate_ne h
  · extract_lets t u at h
    split at h
    · cases h
      exact nofun
    · cases h

theorem Store.resolveOrCreate_ne {s : Store} {roll : Bool} {ids : Path} {c : CellPtr} {e : Fault}
    (h : (resolveOrCreate roll ids c s).1 = .error e) : e.stop ≠ divTrap := by
  induction ids generalizing c s with
  | nil => cases h
  | cons id ids ih =>
    unfold resolveOrCreate at h
    split at h
    · exact ih h
    · cases h
    · rename_i he
      cases h
      exact replaceLeafOrCreate_ne (congrArg Prod.fst he)

theorem Store.create_ne {s : Store} {p : Path} {o : DataObj} {e : Fault} (h : (s.create p o).1 = .error e) : e.stop ≠ divTrap := by
  unfold create at h
  split at h
  · split at h <;> cases h
  · cases h
    exact nofun
  · rename_i he
    cases h
    exact resolveOrCreate_ne (congrArg Prod.fst he)

theorem Store.unpackMx_ne {s : Store} {c : CellPtr} {b : Packed} {e : Stop} (h : (s.unpackMx c b).1 = .error e) : e ≠ divTrap := by
  unfold unpackMx at h
  extract_lets t at h
  split at h
  · cases h
  · split at h <;> cases h
    exact nofun

theorem Store.unpackAll_ne {l : List (CellPtr × Packed)} {s : Store} {e : Stop} (h : (unpackAll l s).1 = .error e) : e ≠ divTrap := by
  induction l generalizing s with
  | nil => cases h
  | cons x l ih =>
    unfold unpackAll at h
    split at h
    · exact ih h
    · rename_i he
      cases h
      exact unpackMx_ne (congrArg Prod.fst he)

/-- The interpreter answers as expected. -/
theorem untrapped_exec (Γ : Ctx) (o : Op) (s : St) : Untrapped o (exec Γ o s).1 := by
  cases o with
  | look p =>
    simp only [exec]
    rcases h : s.store.look p with e | r
    · exact Store.look_ne h
    · trivial
  | create p o =>
    simp only [exec]
    rcases h : (s.store.create p o).1 with e | r
    · exact Store.create_ne h
    · trivial
  | assign d w =>
    simp only [exec]
    split
    · exact nofun
    · trivial
  | rollback =>
    simp only [exec]
    rcases h : s.store.rollback.1 with e | r
    · exact Store.unpackAll_ne h
    · trivial
  | _ => trivial

/-! ## The pieces of code -/

section Basic

variable {α : Type}

@[simp] theorem divides_err (msg : String) (Q : α → Prop) : Divides (err msg : Eff α) Q ↔ True := by
  simp [err, Stop.Sound, divTrap]

@[simp] theorem divides_exn (e : Exn) (Q : α → Prop) : Divides (exn e : Eff α) Q ↔ e ≠ .divByZero := by
  simp [exn, Stop.Sound, divTrap]

@[simp] theorem divides_commonError (msg : String) (Q : α → Prop) : Divides (commonError msg : Eff α) Q ↔ True := by
  simp [commonError, Stop.Sound, divTrap]

@[simp] theorem divides_failIf (c : Prop) [Decidable c] (msg : String) (Q : Unit → Prop) :
    Divides (failIf c msg) Q ↔ (¬ c → Q ()) := by
  by_cases h : c <;> simp [failIf, h]

@[simp] theorem divides_raiseIf (c : Prop) [Decidable c] (msg : String) (Q : Unit → Prop) :
    Divides (raiseIf c msg) Q ↔ (¬ c → Q ()) := by
  by_cases h : c <;> simp [raiseIf, h]

@[simp] theorem divides_doIf (c : Prop) [Decidable c] (m : Eff Unit) (Q : Unit → Prop) :
    Divides (doIf c m) Q ↔ (c → Divides m Q) ∧ (¬ c → Q ()) := by
  by_cases h : c <;> simp [doIf, h]

@[simp] theorem divides_lift (x : Except Stop α) (Q : α → Prop) :
    Divides (lift x) Q ↔ x ≠ .error divTrap ∧ ∀ a, x = .ok a → Q a := by
  rcases x with e | a
  · simp [Eff.lift, Prog.ofExcept, Stop.Sound]
  · simp [Eff.lift, Prog.ofExcept]

@[simp] theorem divides_quot (a b : Int) (Q : Int → Prop) : Divides (quot a b) Q ↔ b ≠ 0 ∧ Q (a.tdiv b) := by
  by_cases h : b = 0 <;> simp [quot, h]

@[simp] theorem divides_need (x : Option α) (Q : α → Prop) : Divides (need x) Q ↔ ∀ a, x = some a → Q a := by
  cases x <;> simp [need]

@[simp] theorem divides_orErr (msg : String) (x : Option α) (Q : α → Prop) :
    Divides (orErr msg x) Q ↔ ∀ a, x = some a → Q a := by
  cases x <;> simp [orErr]

@[simp] theorem divides_look (p : Path) (Q : Option Store.Look → Prop) : Divides (look p) Q ↔ ∀ r, Q r := by
  simp only [look, ends_bind, ends_ofExcept]
  refine ⟨fun h r => (h (.ok r) trivial).1 r rfl, fun h r hr => ⟨fun a _ => h a, ?_⟩⟩
  rintro e rfl
  exact hr

@[simp] theorem divides_create (p : Path) (o : DataObj) (Q : Bool × DataPtr × DataObj → Prop) :
    Divides (create p o) Q ↔ ∀ r, Q r := by
  simp only [create, ends_bind, ends_ofExcept]
  refine ⟨fun h r => (h (.ok r) trivial).1 r rfl, fun h r hr => ⟨fun a _ => h a, ?_⟩⟩
  rintro e rfl
  exact hr

@[simp] theorem divides_assign (d : DataPtr) (w : Write) (Q : Unit → Prop) : Divides (assign d w) Q ↔ Q () := by
  simp only [assign, ends_bind, ends_ofExcept]
  refine ⟨fun h => (h (.ok ()) trivial).1 () rfl, fun h r hr => ⟨fun _ _ => h, ?_⟩⟩
  rintro e rfl
  exact hr

@[simp] theorem divides_rollback (Q : Unit → Prop) : Divides rollback Q ↔ Q () := by
  simp only [rollback, ends_bind, ends_ofExcept]
  refine ⟨fun h => (h (.ok ()) trivial).1 () rfl, fun h r hr => ⟨fun _ _ => h, ?_⟩⟩
  rintro e rfl
  exact hr

@[simp] theorem divides_setDirty (d : DataPtr) (roll : Bool) (Q : Unit → Prop) : Divides (setDirty d roll) Q ↔ Q () :=
  ⟨fun h => h () trivial, fun h _ _ => h⟩
@[simp] theorem divides_markDirty (d : DataPtr) (Q : Unit → Prop) : Divides (markDirty d) Q ↔ Q () :=
  ⟨fun h => h () trivial, fun h _ _ => h⟩
@[simp] theorem divides_deleteGranule (d : DataPtr) (dump : Dump) (Q : Unit → Prop) : Divides (deleteGranule d dump) Q ↔ Q () :=
  ⟨fun h => h () trivial, fun h _ _ => h⟩
@[simp] theorem divides_calcTreeHash (dump : Dump) (Q : Unit → Prop) : Divides (calcTreeHash dump) Q ↔ Q () :=
  ⟨fun h => h () trivial, fun h _ _ => h⟩
@[simp] theorem divides_beginTx (v : Int) (Q : Unit → Prop) : Divides (beginTx v) Q ↔ Q () :=
  ⟨fun h => h () trivial, fun h _ _ => h⟩
@[simp] theorem divides_endTx (Q : Unit → Prop) : Divides endTx Q ↔ Q () :=
  ⟨fun h => h () trivial, fun h _ _ => h⟩
@[simp] theorem divides_addValue (a : Int) (Q : Unit → Prop) : Divides (addValue a) Q ↔ Q () :=
  ⟨fun h => h () trivial, fun h _ _ => h⟩
@[simp] theorem divides_addGas (a : Int) (Q : Unit → Prop) : Divides (addGas a) Q ↔ Q () :=
  ⟨fun h => h () trivial, fun h _ _ => h⟩
@[simp] theorem divides_pend (d : DataPtr) (Q : Unit → Prop) : Divides (pend d) Q ↔ Q () :=
  ⟨fun h => h () trivial, fun h _ _ => h⟩
@[simp] theorem divides_mergeDump (Q : Unit → Prop) : Divides mergeDump Q ↔ Q () :=
  ⟨fun h => h () trivial, fun h _ _ => h⟩
@[simp] theorem divides_emit (e : Emit) (Q : Unit → Prop) : Divides (emit e) Q ↔ Q () :=
  ⟨fun h => h () trivial, fun h _ _ => h⟩
@[simp] theorem divides_reward (a : Int) (Q : Unit → Prop) : Divides (reward a) Q ↔ Q () :=
  ⟨fun h => h () trivial, fun h _ _ => h⟩
@[simp] theorem divides_overflow (Q : Unit → Prop) : Divides overflow Q ↔ Q () :=
  ⟨fun h => h () trivial, fun h _ _ => h⟩
@[simp] theorem divides_cache (n : String) (cc : ContractContext) (Q : Unit → Prop) : Divides (cache n cc) Q ↔ Q () :=
  ⟨fun h => h () trivial, fun h _ _ => h⟩
@[simp] theorem divides_uncache (n : String) (Q : Unit → Prop) : Divides (uncache n) Q ↔ Q () :=
  ⟨fun h => h () trivial, fun h _ _ => h⟩
@[simp] theorem divides_setHandler (n : String) (on : Bool) (Q : Unit → Prop) : Divides (setHandler n on) Q ↔ Q () :=
  ⟨fun h => h () trivial, fun h _ _ => h⟩
@[simp] theorem divides_deref (d : DataPtr) (Q : DataObj → Prop) : Divides (deref d) Q ↔ ∀ r, Q r :=
  ⟨fun h r => h r trivial, fun h r _ => h r⟩
@[simp] theorem divides_value (Q : Int → Prop) : Divides value Q ↔ ∀ r, Q r :=
  ⟨fun h r => h r trivial, fun h r _ => h r⟩
@[simp] theorem divides_gasUsed (Q : Int → Prop) : Divides gasUsed Q ↔ ∀ r, Q r :=
  ⟨fun h r => h r trivial, fun h r _ => h r⟩
@[simp] theorem divides_pending (Q : List DataPtr → Prop) : Divides pending Q ↔ ∀ r, Q r :=
  ⟨fun h r => h r trivial, fun h r _ => h r⟩
@[simp] theorem divides_dumpSize (Q : Nat → Prop) : Divides dumpSize Q ↔ ∀ r, Q r :=
  ⟨fun h r => h r trivial, fun h r _ => h r⟩
@[simp] theorem divides_rollSize (Q : Nat → Prop) : Divides rollSize Q ↔ ∀ r, Q r :=
  ⟨fun h r => h r trivial, fun h r _ => h r⟩
@[simp] theorem divides_saveRoot (Q : Hash → Prop) : Divides saveRoot Q ↔ ∀ r, Q r :=
  ⟨fun h r => h r trivial, fun h r _ => h r⟩
@[simp] theorem divides_rewards (Q : Int → Prop) : Divides rewards Q ↔ ∀ r, Q r :=
  ⟨fun h r => h r trivial, fun h r _ => h r⟩
@[simp] theorem divides_cached (n : String) (Q : Option ContractContext → Prop) : Divides (cached n) Q ↔ ∀ r, Q r :=
  ⟨fun h r => h r trivial, fun h r _ => h r⟩
@[simp] theorem divides_handler (n : String) (Q : Bool → Prop) : Divides (handler n) Q ↔ ∀ r, Q r :=
  ⟨fun h r => h r trivial, fun h r _ => h r⟩

end Basic

/-! ## The readers -/

@[simp] theorem yyGetString_ne (params : Json) (key : String) : yyGetString params key ≠ .error divTrap := by
  unfold yyGetString
  split <;> exact nofun

@[simp] theorem stoull_ne (s : String) : stoull s ≠ .error divTrap := by
  unfold stoull
  split
  · exact nofun
  · split <;> exact nofun

@[simp] theorem yyGetInt64_ne (params : Json) (key : String) : yyGetInt64 params key ≠ .error divTrap := by
  unfold yyGetInt64
  split
  · exact nofun
  · exact stoull_ne _
  · split <;> exact nofun

theorem decodeHexChars_ne (l : List Char) : decodeHexChars l ≠ .error divTrap := by
  unfold decodeHexChars
  split
  · exact nofun
  · exact nofun
  · split <;> exact nofun

@[simp] theorem base16Decode_ne (s : String) : base16Decode s ≠ .error divTrap := by
  unfold base16Decode
  rcases h : decodeHexChars s.toList with e | l
  · rintro he
    cases he
    exact decodeHexChars_ne _ h
  · exact nofun

@[simp] theorem deserializeBls_ne (Γ : Ctx) (hex : String) : deserializeBls Γ hex ≠ .error divTrap := by
  unfold deserializeBls
  rcases h : base16Decode hex with e | buf
  · rintro he
    cases he
    exact base16Decode_ne _ h
  · change (if _ then _ else _) ≠ _
    split
    · exact nofun
    · split <;> exact nofun

@[simp] theorem voteTtl_ne (params : Json) : voteTtl params ≠ .error divTrap := by
  unfold voteTtl
  split
  · exact nofun
  · split <;> exact nofun
  · split <;> exact nofun

@[simp] theorem verify_ne (Γ : Ctx) (k : Key) (sig msg : String) : verify Γ k sig msg ≠ .error divTrap := by
  unfold verify verifyEdPk
  split
  · repeat' split
    all_goals exact nofun
  all_goals exact nofun

@[simp] theorem parseCommand_ne (item : Json) : parseCommand item ≠ .error divTrap := by
  unfold parseCommand
  split <;> exact nofun

theorem gasPerToken_ne (priority base : Int) : gasPerToken priority base ≠ .error divTrap := by
  unfold gasPerToken
  split
  · exact nofun
  · extract_lets g
    split <;> exact nofun

@[simp] theorem token2Gas_ne (tokens priority base : Int) : token2Gas tokens priority base ≠ .error divTrap := by
  unfold token2Gas
  split
  · exact nofun
  · split
    · exact nofun
    · rcases h : gasPerToken priority base with e | g
      · rintro he
        cases he
        exact gasPerToken_ne _ _ h
      · change (if _ then _ else _) ≠ _
        split <;> exact nofun

@[simp] theorem gas2Token_ne (gas priority base : Int) : gas2Token gas priority base ≠ .error divTrap := by
  unfold gas2Token
  split
  · exact nofun
  · split
    · exact nofun
    · rcases h : gasPerToken priority base with e | g
      · rintro he
        cases he
        exact gasPerToken_ne _ _ h
      · exact nofun

@[simp] theorem raiseErr_getNonce_ne (doc : Option Json) : raiseErr (getNonce doc) ≠ .error divTrap := by
  unfold getNonce
  repeat' split
  all_goals
    intro h
    cases h

theorem readAmounts_ne (root : Json) : readAmounts root ≠ .error divTrap := by
  unfold readAmounts
  rcases hv : yyGetInt64 root "value" with e | value
  · rintro he
    cases he
    exact yyGetInt64_ne _ _ hv
  rcases hl : yyGetInt64 root "gasLimit" with e | limit
  · rintro he
    cases he
    exact yyGetInt64_ne _ _ hl
  rcases hp : yyGetInt64 root "priority" with e | priority
  · rintro he
    cases he
    exact yyGetInt64_ne _ _ hp
  exact nofun

/-! ## The root commands -/

section Commands

variable {Γ : Ctx} {t : TParams} {b : BParams} {i : Nat}

@[simp] theorem divides_getNoCreate {τ : Type} (n : Name) (cast : Payload → Option τ) (Q : Option (Leaf τ) → Prop) :
    Divides (getNoCreate Γ n cast) Q ↔ ∀ r : Option Store.Look, Q (r.bind fun z => castTo cast z.2) := by
  simp [getNoCreate]

attribute [local simp] getValuesNoCreate getStateNoCreate getNodeNoCreate getNodeListNoCreate getVotesNoCreate
  getContractNoCreate getContractActivityNoCreate getContractBalanceNoCreate getContractDataNoCreate getAddressStateNoCreate
  checkAddr emitCommand

theorem divides_executeMint (params : Json) : Divides (executeMint Γ params t i) fun _ => True := by
  simp [executeMint]

theorem divides_executeTransfer (params : Json) : Divides (executeTransfer Γ params t i) fun _ => True := by
  simp [executeTransfer]

theorem divides_executeNodeUpdate (params : Json) : Divides (executeNodeUpdate Γ params b t i) fun _ => True := by
  simp [executeNodeUpdate]

@[simp] theorem divides_checkNameChars (l : List Char) {Q : Unit → Prop} (h : Q ()) : Divides (checkNameChars l) Q ↔ True := by
  induction l with
  | nil => simp [checkNameChars, h]
  | cons z zs ih => simp [checkNameChars, ih]

theorem divides_executeNodeCreate (params : Json) : Divides (executeNodeCreate Γ params b t i) fun _ => True := by
  simp [executeNodeCreate, addNode]

theorem divides_executeNodeStake (params : Json) : Divides (executeNodeStake Γ params b t i) fun _ => True := by
  simp [executeNodeStake]

theorem divides_executeUnstakeNode (params : Json) : Divides (executeUnstakeNode Γ params t i) fun _ => True := by
  simp [executeUnstakeNode, derefNode]

theorem divides_setNodeEnabled (on : Bool) (already command : String) (gas : Int) (params : Json) :
    Divides (setNodeEnabled Γ on already command gas params t i) fun _ => True := by
  simp [setNodeEnabled]

theorem divides_executeContractUpdate (params : Json) : Divides (executeContractUpdate Γ params t i) fun _ => True := by
  simp [executeContractUpdate]

@[simp] theorem divides_createNew (n : Name) (o : DataObj) (Q : DataPtr → Prop) :
    Divides (createNew Γ n o) Q ↔ ∀ d, Q d := by
  simp only [createNew, ends_bind, divides_create, divides_raiseIf, divides_setDirty, ends_pure, Prod.forall]
  exact ⟨fun h d => h false d { payload := .nodelist ∅ } (by simp), fun h _ d _ _ => h d⟩

theorem divides_getOrCreate {τ : Type} (n : Name) (o : DataObj) (cast : Payload → Option τ) {Q : Option DataPtr → Prop}
    (h : ∀ d, Q d) : Divides (getOrCreate Γ n o cast) Q := by
  simp only [getOrCreate, ends_bind, divides_create]
  rintro ⟨old, d, x⟩
  cases old <;> simp [h]

/-- The gas of a time to live, with a divisor that is not zero. -/
@[simp] theorem divides_ttlGas (f : FeesSnapshot) (ttl : Int) (Q : Int → Prop) :
    Divides (ttlGas f ttl) Q ↔ f.ttlSecondsPerGas ≠ 0 ∧ Q ((ttl + f.ttlSecondsPerGas - 1).tdiv f.ttlSecondsPerGas) := by
  simp [ttlGas]

theorem divides_executeContractDeploy (hb : b.fees.ttlSecondsPerGas ≠ 0) (params : Json) :
    Divides (executeContractDeploy Γ params b t i) fun _ => True := by
  simp only [executeContractDeploy, getContractActivityOrCreate, getContractBalanceOrCreate, getContractOrCreate, ends_bind,
    divides_lift, yyGetString_ne, ne_eq, not_false_eq_true, true_and]
  intro name _
  refine (divides_checkNameChars _ ?_).2 trivial
  simp only [getContractNoCreate, divides_getNoCreate, divides_failIf, getAddressStateNoCreate, checkAddr, ends_bind,
    divides_raiseIf, divides_orErr, yyGetInt64_ne, not_false_eq_true, true_and, divides_createNew, divides_assign,
    divides_markDirty]
  intros
  refine divides_getOrCreate _ _ _ fun act => ?_
  simp only [divides_setDirty]
  intros
  refine divides_getOrCreate _ _ _ fun ab => ?_
  simp [hb]

/-! ### Votes -/

theorem divides_votedStake (l : List String) (x : Int) : Divides (votedStake Γ l x) fun _ => True := by
  induction l generalizing x with
  | nil => trivial
  | cons z zs ih => simp [votedStake, ih]

theorem divides_applyVote (hb : b.fullStake ≠ 0) (votes : DataPtr) (vhash param value : String) (voted : StdSet String) :
    Divides (applyVote Γ b t i votes vhash param value voted) fun _ => True := by
  simp only [applyVote, ends_bind, divides_markDirty]
  refine (divides_votedStake _ _).post fun _ _ => ?_
  simp [hb]

theorem divides_executeVote (hb : b.fullStake ≠ 0) (params : Json) : Divides (executeVote Γ params b t i) fun _ => True := by
  simp only [executeVote, getValuesNoCreate, getVotesNoCreate, getNodeNoCreate, ends_bind, divides_getNoCreate, divides_lift,
    yyGetString_ne, voteTtl_ne, ne_eq, not_false_eq_true, true_and, divides_orErr, divides_failIf, divides_need]
  intros
  split
  · simp only [ends_bind, divides_failIf, divides_assign, divides_lift, stoull_ne, ne_eq, not_false_eq_true, true_and]
    intros
    exact (divides_applyVote hb _ _ _ _ _).post fun _ _ => by simp
  · split
    · simp
    · simp only [ends_bind, divides_assign]
      exact (divides_applyVote hb _ _ _ _ _).post fun _ _ => by simp

/-! ### Keys -/

theorem divides_addKey (u : DataPtr) (type : Nat) (kb : String) {Q : Option Nat → Prop} (h : ∀ x, Q x) :
    Divides (addKey u type kb) Q := by
  simp only [addKey, derefAddress, ends_bind, divides_deref, ends_pure]
  intro o
  split <;> simp [h]

theorem divides_executeAddAddressKey (params : Json) : Divides (executeAddAddressKey Γ params t i) fun _ => True := by
  simp [executeAddAddressKey, checkKey, divides_addKey]

theorem divides_executeRemoveAddressKey (params : Json) : Divides (executeRemoveAddressKey Γ params t i) fun _ => True := by
  simp [executeRemoveAddressKey]

theorem divides_parseKeys (items : List Json) : Divides (parseKeys items) fun _ => True := by
  induction items with
  | nil => trivial
  | cons item items ih => simp [parseKeys, checkKey, ih]

theorem divides_addKeys (u : DataPtr) (ks : List (Nat × String)) : Divides (addKeys u ks) fun _ => True := by
  induction ks with
  | nil => trivial
  | cons k ks ih =>
    simp only [addKeys, ends_bind]
    exact divides_addKey _ _ _ fun x => (divides_orErr _ _ _).2 fun _ _ => ih

theorem divides_getAddressStateOrCreate (addr : String) {Q : Option DataPtr → Prop} (h : ∀ d, Q d) :
    Divides (getAddressStateOrCreate Γ addr) Q := by
  simp only [getAddressStateOrCreate, checkAddr, ends_bind, divides_raiseIf, divides_create]
  rintro _ ⟨old, d, o⟩
  cases old <;> simp [h]

theorem divides_executeCreateAddress (params : Json) : Divides (executeCreateAddress Γ params b t i) fun _ => True := by
  simp only [executeCreateAddress, getAddressStateNoCreate, checkAddr, ends_bind, divides_lift, yyGetString_ne, base16Decode_ne,
    ne_eq, not_false_eq_true, true_and, divides_failIf, divides_raiseIf, divides_getNoCreate, divides_orErr]
  intros
  refine (divides_parseKeys _).post fun parsed _ => divides_getAddressStateOrCreate _ fun u d _ => ?_
  exact (divides_addKeys _ _).post fun _ _ => by simp

/-! ### Garbage collection -/

theorem divides_writeIf {τ : Type} (ws : List Write) (x : Option (Leaf τ)) : Divides (writeIf ws x) fun _ => True := by
  cases x with
  | none => trivial
  | some l => exact (ends_bind _ _ _).2 (Ends.post (ends_forM fun w _ => by simp) fun _ _ => by simp)

theorem divides_eraseFromOwners (cn : String) (now : Int) (l : List String) :
    Divides (eraseFromOwners Γ cn now l) fun _ => True := by
  induction l with
  | nil => trivial
  | cons owner l ih =>
    simp only [eraseFromOwners, getAddressStateNoCreate, checkAddr, ends_bind, divides_raiseIf, divides_getNoCreate]
    exact fun _ _ => (divides_writeIf _ _).post fun _ _ => ih

theorem divides_burnContractBalance (x : Option (Leaf Int)) : Divides (burnContractBalance Γ x) fun _ => True := by
  cases x with
  | none => trivial
  | some bal =>
    simp only [burnContractBalance, getStateNoCreate, ends_bind, divides_doIf, divides_getNoCreate, divides_deleteGranule]
    exact ⟨fun _ _ => (divides_writeIf _ _).post fun _ _ => trivial, fun _ => trivial⟩

theorem divides_deleteIf {τ : Type} (x : Option (Leaf τ)) : Divides (deleteIf x) fun _ => True := by
  cases x <;> simp [deleteIf]

theorem divides_gcContractApply (now : Int) (cc : Option (DataPtr × DataObj)) :
    Divides (gcContractApply Γ now cc) fun _ => True := by
  simp only [gcContractApply, getContractNoCreate, getContractBalanceNoCreate, ends_bind, divides_orErr, divides_failIf,
    divides_getNoCreate]
  intro act _ _ _ r
  refine (divides_eraseFromOwners _ _ _).post fun _ _ _ => (divides_burnContractBalance _).post fun _ _ => ?_
  exact (divides_deleteIf _).post fun _ _ => by simp

theorem divides_returnStakes (name : String) (now : Int) (l : List (String × Int)) (total : Int) :
    Divides (returnStakes Γ name now l total) fun _ => True := by
  induction l generalizing total with
  | nil => trivial
  | cons x l ih =>
    unfold returnStakes
    split
    · exact ih total
    · simp only [getAddressStateNoCreate, checkAddr, ends_bind, divides_raiseIf, divides_getNoCreate]
      exact fun _ _ => (divides_writeIf _ _).post fun _ _ => ih _

theorem divides_gcNodeApply (now : Int) (cc : Option (DataPtr × DataObj)) : Divides (gcNodeApply Γ now cc) fun _ => True := by
  simp only [gcNodeApply, getStateNoCreate, getNodeListNoCreate, getAddressStateNoCreate, checkAddr, ends_bind, divides_orErr,
    divides_failIf]
  intro n _ _ _
  have hrest : Divides (do
      getNoCreate Γ (.addressState n.val.ownerAddress) Payload.address? >>=
        writeIf [.eraseOwnedNode n.val.name, .raiseUpdateTime now]
      getNoCreate Γ .nodeList Payload.nodelist? >>= writeIf [.removeNode n.val.name]
      getNoCreate Γ .state Payload.state? >>= writeIf [.addNodeCount (-1)]
      deleteGranule n.ptr .saveZ) fun _ => True := by
    simp only [ends_bind, divides_getNoCreate]
    exact fun _ => (divides_writeIf _ _).post fun _ _ _ => (divides_writeIf _ _).post fun _ _ _ =>
      (divides_writeIf _ _).post fun _ _ => by simp
  simp only [ends_bind] at hrest
  refine (divides_returnStakes _ _ _ _).post fun total _ => ?_
  simp only [divides_doIf, ends_bind, divides_raiseIf, divides_getNoCreate] at hrest ⊢
  exact ⟨fun _ _ => (divides_writeIf _ _).post fun _ _ _ => hrest, fun _ _ => hrest⟩

theorem divides_gcAddressApply (now : Int) (cc : Option (DataPtr × DataObj)) :
    Divides (gcAddressApply Γ now cc) fun _ => True := by
  simp only [gcAddressApply, getStateNoCreate, ends_bind, divides_orErr, divides_failIf, divides_doIf, divides_getNoCreate]
  intros
  exact ⟨fun _ _ => (divides_writeIf _ _).post fun _ _ => by simp, fun _ => by simp⟩

theorem divides_gcTry {m : Eff Unit} (h : Divides m fun _ => True) (counted cnt : GcCounts) :
    Divides (gcTry m counted cnt) fun _ => True := by
  refine ends_handle ((ends_bind _ _ _).2 (h.post fun _ _ => trivial)) fun e he => ?_
  cases e with
  | err msg => trivial
  | exn e => exact he

theorem divides_gcItem (now : Int) (cnt : GcCounts) (z : Store.Look) : Divides (gcItem Γ now cnt z) fun _ => True := by
  unfold gcItem
  split
  · trivial
  · exact divides_gcTry (by simp [gcGranuleApply]) _ _
  · exact divides_gcTry (divides_gcContractApply _ _) _ _
  · exact divides_gcTry (divides_gcNodeApply _ _) _ _
  · exact divides_gcTry (divides_gcAddressApply _ _) _ _
  · trivial

theorem divides_gcKey (now : Int) (hex : String) (cnt : GcCounts) : Divides (gcKey Γ now hex cnt) fun _ => True := by
  simp only [gcKey, ends_bind, divides_lift, base16Decode_ne, ne_eq, not_false_eq_true, true_and]
  intro h _
  split
  · trivial
  · simp only [ends_bind, divides_look]
    intro r
    cases r with
    | none => trivial
    | some z => exact divides_gcItem _ _ _

theorem divides_gcItems (now : Int) (l : List Json) (cnt : GcCounts) : Divides (gcItems Γ now l cnt) fun _ => True := by
  induction l generalizing cnt with
  | nil => trivial
  | cons x l ih =>
    cases x with
    | str hex => exact (ends_bind _ _ _).2 ((divides_gcKey _ _ _).post fun _ _ => ih _)
    | _ => exact ih _

theorem divides_executeGc (params : Json) : Divides (executeGc Γ params t i) fun _ => True := by
  simp only [executeGc, getValuesNoCreate, ends_bind, divides_getNoCreate, divides_orErr, divides_failIf]
  intros
  exact (divides_gcItems _ _ _).post fun _ _ => by simp

/-- No root command traps. -/
theorem divides_executeRoot (hf : b.fees.ttlSecondsPerGas ≠ 0) (hs : b.fullStake ≠ 0) (method : String) (params : Json) :
    Divides (executeRoot Γ b t i method params) fun _ => True := by
  unfold executeRoot
  split
  · exact divides_executeMint _
  · exact divides_executeTransfer _
  · exact divides_executeNodeCreate _
  · exact divides_executeNodeUpdate _
  · exact divides_executeNodeStake _
  · exact divides_executeUnstakeNode _
  · exact divides_setNodeEnabled _ _ _ _ _
  · exact divides_setNodeEnabled _ _ _ _ _
  · exact divides_executeContractDeploy hf _
  · exact divides_executeContractUpdate _
  · exact divides_executeVote hs _
  · exact divides_executeGc _
  · exact divides_executeCreateAddress _
  · exact divides_executeAddAddressKey _
  · exact divides_executeRemoveAddressKey _
  · simp

end Commands

/-! ## Contract calls -/

section Calls

variable {Γ : Ctx} {t : TParams} {b : BParams}

attribute [local simp] getContractActivityNoCreate getContractBalanceNoCreate getContractDataNoCreate getContractNoCreate
  emitCommand consumeCallGas

theorem divides_hostTry {m : Eff HostRes} (h : Divides m fun _ => True) : Divides (hostTry m) fun _ => True := by
  refine ends_handle h fun e he => ?_
  rcases e with _ | (_ | _ | _ | _ | _) <;> trivial

theorem divides_raiseActivity (contract : String) (untilTime : Int) : Divides (raiseActivity Γ contract untilTime) fun _ => True := by
  simp only [raiseActivity, getContractActivityNoCreate, ends_bind, divides_getNoCreate]
  exact fun _ => divides_writeIf _ _

theorem divides_ioCreateGranule (contract key value : String) (createTime ttl : Int) :
    Divides (ioCreateGranule Γ contract key value createTime ttl) fun _ => True := by
  simp [ioCreateGranule, getContractDataOrCreate, divides_raiseActivity]

theorem divides_ioSetGranule (contract key value : String) (now : Int) :
    Divides (ioSetGranule Γ contract key value now) fun _ => True := by
  simp [ioSetGranule, divides_raiseActivity]

theorem divides_ioAddContractBalance (contract : String) (delta : Int) :
    Divides (ioAddContractBalance Γ contract delta) fun _ => True := by
  simp only [ioAddContractBalance, getContractBalanceOrCreate, ends_bind]
  exact divides_getOrCreate _ _ _ fun d => by simp

theorem divides_jsiCreateGranule (hb : b.fees.ttlSecondsPerGas ≠ 0) (self key : String) (value : Option String) (ttl : Option Int) :
    Divides (jsiCreateGranule Γ b t self key value ttl) fun _ => True := by
  simp only [jsiCreateGranule, consumeCallGas, ends_bind, divides_addGas, divides_failIf, divides_orErr, divides_ttlGas,
    getContractDataNoCreate, divides_getNoCreate]
  intros
  refine ⟨hb, ?_⟩
  intros
  exact (divides_ioCreateGranule _ _ _ _ _).post fun _ _ => by simp

theorem divides_jsiSetGranule (hb : b.fees.ttlSecondsPerGas ≠ 0) (self key : String) (value : Option String) :
    Divides (jsiSetGranule Γ b t self key value) fun _ => True := by
  simp only [jsiSetGranule, consumeCallGas, ends_bind, divides_addGas, divides_failIf, divides_orErr, divides_ttlGas,
    getContractDataNoCreate, divides_getNoCreate]
  intros
  refine ⟨hb, ?_⟩
  intros
  exact (divides_ioSetGranule _ _ _ _).post fun _ _ => by simp

theorem divides_jsiGetGranule (self key : String) : Divides (jsiGetGranule Γ self key) fun _ => True := by
  simp [jsiGetGranule]

theorem divides_jsiDeleteGranule (self key : String) : Divides (jsiDeleteGranule Γ b self key) fun _ => True := by
  simp [jsiDeleteGranule]

theorem divides_jsiConsumeValue (self : String) (amount : Option Int) :
    Divides (jsiConsumeValue Γ b self amount) fun _ => True := by
  simp only [jsiConsumeValue, consumeCallGas, ends_bind, divides_addGas, divides_orErr, divides_failIf, divides_value,
    divides_addValue]
  intros
  exact (divides_ioAddContractBalance _ _).post fun _ _ => by simp [ioGetContractBalance]

theorem divides_jsiRefundValue (self : String) (amount : Option Int) :
    Divides (jsiRefundValue Γ b self amount) fun _ => True := by
  simp only [jsiRefundValue, consumeCallGas, ioGetContractBalance, getContractBalanceNoCreate, ends_bind, divides_addGas,
    divides_orErr, divides_failIf, divides_getNoCreate, ends_pure]
  intros
  exact (divides_ioAddContractBalance _ _).post fun _ _ => by simp

theorem divides_jsiMsg (caller : String) : Divides (jsiMsg t caller) fun _ => True := by
  simp [jsiMsg]

theorem divides_getContract (name : String) {Q : Option ContractContext → Prop} (h : ∀ x, Q x) :
    Divides (getContract Γ name) Q := by
  simp only [getContract, getContractNoCreate, ends_bind, divides_cached]
  intro x
  cases x with
  | some cc => exact h _
  | none =>
    simp only [ends_bind, divides_getNoCreate]
    intro r
    split
    · exact h _
    · split
      · exact h _
      · simp [h]

theorem divides_runScript (name src : String) {host : HostCall → Eff (HostRes × Events)} {interrupt : Eff Bool}
    (hhost : ∀ h, Divides (host h) fun _ => True) (hint : Divides interrupt fun _ => True) (script : Script) (events : Events) :
    Divides (runScript name src host interrupt script events) fun _ => True := by
  induction script generalizing events with
  | done r heap => simp [runScript, saveHeap]
  | throw text heap => simp [runScript, saveHeap]
  | step heap k ih =>
    refine (ends_bind _ _ _).2 (hint.post fun stop _ => ?_)
    cases stop
    · exact ih _
    · simp [saveHeap]
  | call heap h k ih =>
    simp only [runScript, saveHeap, loadHeap, ends_bind, divides_cache, divides_cached, ends_pure]
    exact (hhost h).post fun r _ => fun _ => ih _ _ _

theorem divides_interruptHandler (name : String) : Divides (interruptHandler b t name) fun _ => True := by
  simp only [interruptHandler, ends_bind, divides_handler]
  intro on
  cases on <;> simp

theorem divides_viewHost (self : String) (h : HostCall) : Divides (viewHost Γ self h) fun _ => True := by
  cases h with
  | getGranule key => exact (ends_bind _ _ _).2 ((divides_hostTry (divides_jsiGetGranule _ _)).post fun _ _ => trivial)
  | _ => trivial

theorem divides_callContractView (n : Nat) (name : String) (cc : ContractContext) (view : String) (params : Json) :
    Divides (callContractView Γ n name cc view params) fun _ => True := by
  unfold callContractView
  split
  · trivial
  · split
    · trivial
    · simp only [ends_bind, divides_setHandler]
      exact divides_runScript _ _ (divides_viewHost _) ((ends_pure _ _).2 trivial) _ _

theorem divides_jsiCallView (n : Nat) (self contract view : String) (params : Json) :
    Divides (jsiCallView Γ n self contract view params) fun _ => True := by
  simp only [jsiCallView, ends_bind, divides_failIf]
  intro _ _
  exact divides_getContract _ fun _ => (divides_orErr _ _ _).2 fun cc _ => divides_callContractView _ _ _ _ _

theorem divides_quiet {m : Eff HostRes} (h : Divides m fun _ => True) : Divides (quiet m) fun _ => True :=
  (ends_bind _ _ _).2 ((divides_hostTry h).post fun _ _ => trivial)

theorem divides_jsiEmit (name : String) (value : Option String) : Divides (jsiEmit b name value) fun _ => True := by
  refine (ends_bind _ _ _).2 ((divides_hostTry (by simp)).post fun r _ => ?_)
  cases r <;> trivial

theorem divides_methodHost (hb : b.fees.ttlSecondsPerGas ≠ 0) (n : Nat)
    {call : (name : String) → ContractContext → (method : String) → Json → (caller : String) → Eff (HostRes × Events)}
    (hcall : ∀ name cc method params caller, Divides (call name cc method params caller) fun _ => True)
    (self caller : String) (h : HostCall) : Divides (methodHost Γ b t n call self caller h) fun _ => True := by
  cases h with
  | createGranule key value ttl => exact divides_quiet (divides_jsiCreateGranule hb _ _ _ _)
  | setGranule key value => exact divides_quiet (divides_jsiSetGranule hb _ _ _)
  | getGranule key => exact divides_quiet (divides_jsiGetGranule _ _)
  | deleteGranule key => exact divides_quiet (divides_jsiDeleteGranule _ _)
  | emit name value => exact divides_jsiEmit _ _
  | consumeValue amount => exact divides_quiet (divides_jsiConsumeValue _ _)
  | refundValue amount => exact divides_quiet (divides_jsiRefundValue _ _)
  | remainingValue => exact divides_quiet (by simp)
  | msg => exact divides_quiet (divides_jsiMsg _)
  | callMethod contract method params =>
    refine (ends_bind _ _ _).2 (ends_handle (Q := fun _ => _) ?_ fun e he => ?_)
    · simp only [beforeCallMethod, consumeCallGas, ends_bind, divides_addGas, divides_failIf, ends_pure]
      intro _ _
      exact divides_getContract _ fun _ => (divides_orErr _ _ _).2 fun cc _ => hcall _ _ _ _ _
    · rcases e with _ | (_ | _ | _ | _ | _) <;> trivial
  | callView contract view params =>
    refine ends_handle (divides_jsiCallView _ _ _ _ _) fun e he => ?_
    rcases e with _ | (_ | _ | _ | _ | _) <;> trivial

theorem divides_callContractMethod (hb : b.fees.ttlSecondsPerGas ≠ 0) (n : Nat) (name : String) (cc : ContractContext)
    (method : String) (params : Json) (caller : String) :
    Divides (callContractMethod Γ b t n name cc method params caller) fun _ => True := by
  induction n generalizing name cc method params caller with
  | zero => trivial
  | succ n ih =>
    unfold callContractMethod
    split
    · trivial
    · simp only [ends_bind, divides_setHandler]
      refine (divides_runScript _ _ (divides_methodHost hb n ih name caller) (divides_interruptHandler name) _ _).post fun _ _ => ?_
      simp

theorem divides_emitEvents (i : Nat) (events : Events) : Divides (emitEvents t i events) fun _ => True := by
  induction events with
  | nil => trivial
  | cons e events ih => simp [emitEvents, ih]

/-- No contract call traps, whatever its code does. -/
theorem divides_executeContractCall (hb : b.fees.ttlSecondsPerGas ≠ 0) (i : Nat) (contract method : String) (params : Json) :
    Divides (executeContractCall Γ b t i contract method params) fun _ => True := by
  refine (ends_bind _ _ _).2 ((ends_bind _ _ _).2 (divides_getContract _ fun _ => (divides_orErr _ _ _).2 fun cc _ => ?_))
  refine (ends_bind _ _ _).2 ((divides_callContractMethod hb _ _ _ _ _ _).post fun r _ => ?_)
  obtain ⟨r, events⟩ := r
  dsimp only
  split
  · simp
  · exact divides_emitEvents _ _

end Calls

/-! ## Transactions and blocks -/

section Blocks

variable {Γ : Ctx} {b : BParams}

theorem divides_executeCommand (hf : b.fees.ttlSecondsPerGas ≠ 0) (hs : b.fullStake ≠ 0) (t : TParams) (i : Nat) (c : Command) :
    Divides (executeCommand Γ b t i c) fun _ => True := by
  unfold executeCommand
  split
  · exact divides_executeRoot hf hs _ _
  · exact divides_executeContractCall hf _ _ _ _

theorem divides_executeCommands (hf : b.fees.ttlSecondsPerGas ≠ 0) (hs : b.fullStake ≠ 0) (t : TParams) (l : List Json) (i : Nat) :
    Divides (executeCommands Γ b t l i) fun _ => True := by
  induction l generalizing i with
  | nil => trivial
  | cons item l ih =>
    simp only [executeCommands, ends_bind, divides_lift, parseCommand_ne, ne_eq, not_false_eq_true, true_and]
    exact fun c _ => (divides_executeCommand hf hs _ _ _).post fun _ _ => ih _

theorem divides_catchErr {m : Eff Unit} (h : Divides m fun _ => True) : Divides (catchErr m) fun _ => True := by
  refine ends_handle ((ends_bind _ _ _).2 (h.post fun _ _ => trivial)) fun e he => ?_
  cases e with
  | err msg => trivial
  | exn e => exact he

theorem divides_chargeGas (uu : DataPtr) (priority gas : Int) : Divides (chargeGas b uu priority gas) fun _ => True := by
  simp [chargeGas]

theorem divides_fail (uu : DataPtr) (priority : Int) (msg : String) (gas : Int) :
    Divides (fail b uu priority msg gas : Eff Unit) fun _ => True := by
  simp only [fail, ends_bind, divides_rollSize, divides_addGas, divides_rollback]
  exact fun _ => (divides_chargeGas _ _ _).post fun _ _ => by simp

theorem divides_deletePending (ds : List DataPtr) : Divides (deletePending ds) fun _ => True := by
  induction ds with
  | nil => trivial
  | cons d ds ih => simp [deletePending, ih]

theorem divides_settle (uu : DataPtr) (a : Amounts) (gasLimitGas : Int) : Divides (settle b uu a gasLimitGas) fun _ => True := by
  simp only [settle, ends_bind, divides_pending]
  refine fun ds => (divides_deletePending ds).post fun _ _ => ?_
  simp only [divides_calcTreeHash, divides_dumpSize, divides_addGas, divides_gasUsed]
  intro _ gas
  split
  · exact divides_fail _ _ _ _
  · exact (ends_bind _ _ _).2 ((divides_chargeGas _ _ _).post fun _ _ => by simp [sub64])

theorem divides_afterCommands (uu : DataPtr) (a : Amounts) (gasLimitGas : Int) (r : Option String) :
    Divides (afterCommands b uu a gasLimitGas r) fun _ => True := by
  simp only [afterCommands, ends_bind, divides_gasUsed]
  intro gas
  cases r with
  | some msg => exact divides_fail _ _ _ _
  | none =>
    simp only [ends_bind, divides_value]
    intro v
    split
    · exact divides_fail _ _ _ _
    · split
      · exact divides_fail _ _ _ _
      · exact divides_settle _ _ _

theorem divides_readAmountsEmit (tx : TX) (root : Json) : Divides (readAmountsEmit tx root) fun _ => True := by
  unfold readAmountsEmit
  split
  · trivial
  · simp [emitTx]
  · rename_i e _ he
    rintro rfl
    exact readAmounts_ne _ he

theorem divides_executeTxCommands (hf : b.fees.ttlSecondsPerGas ≠ 0) (hs : b.fullStake ≠ 0) (t : TParams) (jtx : Json) :
    Divides (executeTxCommands Γ b t jtx) fun _ => True := by
  simp only [executeTxCommands, ends_bind, divides_orErr, divides_gasUsed, divides_failIf]
  exact fun _ _ _ _ => divides_executeCommands hf hs _ _ _

theorem divides_transaction (hf : b.fees.ttlSecondsPerGas ≠ 0) (hs : b.fullStake ≠ 0) (sender : String) (tx : TX) :
    Divides (transaction Γ b sender tx) fun _ => True := by
  unfold transaction
  refine (ends_bind _ _ _).2 ((divides_getNoCreate _ _ _).2 fun _ => ?_)
  simp only [ends_bind, divides_raiseIf, divides_need, divides_assign, divides_setDirty]
  intro _ st _ _ jtx _
  refine (divides_readAmountsEmit _ _).post fun a _ => (divides_getNoCreate _ _ _).2 fun _ => ?_
  simp only [divides_lift, token2Gas_ne, ne_eq, not_false_eq_true, true_and, divides_beginTx]
  intro gasLimitGas _
  simp only [getAddressStateNoCreate, checkAddr, ends_bind, divides_raiseIf]
  refine fun _ => (divides_getNoCreate _ _ _).2 fun _ _ uu _ => ?_
  have hrun : ∀ t, Divides (catchErr (executeTxCommands Γ b t jtx) >>= afterCommands b uu.ptr a gasLimitGas) fun _ => True :=
    fun t => (ends_bind _ _ _).2 ((divides_catchErr (divides_executeTxCommands hf hs t jtx)).post
      fun r _ => divides_afterCommands _ _ _ _)
  simp only [add64, ends_bind, divides_doIf, divides_overflow, ends_pure, divides_failIf, divides_calcTreeHash]
  exact ⟨fun _ _ => (ends_bind _ _ _).1 (hrun _), fun _ _ => (ends_bind _ _ _).1 (hrun _)⟩

theorem divides_executeTransaction (hf : b.fees.ttlSecondsPerGas ≠ 0) (hs : b.fullStake ≠ 0) (sender : String) (tx : TX) :
    Divides (executeTransaction Γ b sender tx) fun _ => True := by
  refine ends_handle ((ends_bind _ _ _).2 ((divides_transaction hf hs sender tx).post fun _ _ => by simp)) fun e he => ?_
  exact (ends_bind _ _ _).2 ((divides_endTx _).2 he)

theorem divides_executeBlockTx (hf : b.fees.ttlSecondsPerGas ≠ 0) (hs : b.fullStake ≠ 0) (tx : TX) :
    Divides (executeBlockTx Γ b tx) fun _ => True := by
  have hcheck : Divides (checkAndExecute Γ b tx) fun _ => True := by
    simp only [checkAndExecute, checkSender, getAddressStateNoCreate, checkAddr, ends_bind, divides_failIf, divides_lift,
      base16Decode_ne, verify_ne, raiseErr_getNonce_ne, ne_eq, not_false_eq_true, true_and, divides_raiseIf, divides_getNoCreate,
      divides_orErr, ends_pure]
    intros
    refine (divides_catchErr (divides_executeTransaction hf hs _ _)).post fun r _ => ?_
    cases r <;> simp
  refine (ends_bind _ _ _).2 ((divides_catchErr hcheck).post fun r _ => ?_)
  cases r <;> simp [emitTx]

theorem divides_executeTxs (hf : b.fees.ttlSecondsPerGas ≠ 0) (hs : b.fullStake ≠ 0) (txs : List TX) :
    Divides (executeTxs Γ b txs) fun _ => True := by
  induction txs with
  | nil => trivial
  | cons tx txs ih => exact (ends_bind _ _ _).2 ((divides_executeBlockTx hf hs tx).post fun _ _ => ih)

theorem divides_getNodes (l : List String) : Divides (getNodes Γ l) fun _ => True := by
  induction l with
  | nil => trivial
  | cons z l ih =>
    simp only [getNodes, getNodeNoCreate, ends_bind, divides_getNoCreate]
    exact fun _ => ih.post fun _ _ => trivial

theorem divides_validatorStakes (l : List String) : Divides (validatorStakes Γ l) fun _ => True := by
  induction l with
  | nil => trivial
  | cons z l ih =>
    simp only [validatorStakes, getNodeNoCreate, ends_bind, divides_getNoCreate, divides_raiseIf, divides_need]
    exact fun _ _ _ _ => ih.post fun _ _ => trivial

theorem divides_rewardValidators (rewards : Int) (stakes : List Int) (l : List String) :
    Divides (rewardValidators Γ rewards stakes l) fun _ => True := by
  induction l with
  | nil => trivial
  | cons z l ih => simp [rewardValidators, getNodeNoCreate, getAddressStateNoCreate, checkAddr, emitBlock, ih]

theorem divides_calcFeeRewardsNodes : Divides (calcFeeRewardsNodes Γ b) fun _ => True := by
  simp only [calcFeeRewardsNodes, getAllNodes, getNodeListNoCreate, ends_bind, divides_getNoCreate, divides_raiseIf, divides_need]
  intros
  refine (divides_getNodes _).post fun _ _ => ?_
  simp only [divides_rewards]
  intro r
  split
  · simp [emitBlock]
  · simp only [ends_bind]
    exact (divides_validatorStakes _).post fun _ _ => (divides_rewardValidators _ _ _).post fun _ _ => by simp [emitBlock]

/-- A block does not divide by zero where `ttl_seconds_per_gas` and the full stake are not zero. -/
theorem executeBlock_ne_divTrap (hf : b.fees.ttlSecondsPerGas ≠ 0) (hs : b.fullStake ≠ 0) (newEpoch : Int) (txs : List TX) (s : St) :
    (runEff Γ (executeBlock Γ b newEpoch txs) s).1 ≠ .error divTrap := by
  have h : Divides (executeBlock Γ b newEpoch txs) fun _ => True := by
    simp only [executeBlock, beginBlock, endBlock, proceedMerkle, getStateNoCreate, ends_bind, divides_getNoCreate, divides_need,
      divides_assign, divides_setDirty]
    intros
    refine (divides_executeTxs hf hs txs).post fun _ _ => ?_
    simp only [divides_calcTreeHash, divides_saveRoot]
    exact fun _ => divides_calcFeeRewardsNodes.post fun _ _ _ => trivial
  intro he
  exact run_ends (untrapped_exec Γ) h he rfl

/-- The commands of a transaction do not divide by zero. -/
theorem executeTxCommands_ne_divTrap (hf : b.fees.ttlSecondsPerGas ≠ 0) (hs : b.fullStake ≠ 0) (t : TParams) (jtx : Json) (s : St) :
    (runEff Γ (executeTxCommands Γ b t jtx) s).1 ≠ .error divTrap := by
  intro he
  exact run_ends (untrapped_exec Γ) (divides_executeTxCommands hf hs t jtx) he rfl

end Blocks

end Grain
