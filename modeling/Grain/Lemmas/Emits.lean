import Grain.Events
import Grain.Lemmas.Idle

/-!
# Where emits come from

Outside of the root commands and of the hand-over at the end of a contract call nothing adds a command-level entry (`Mute`). A
root command adds its entries after everything in it that can fail (`Emits`), so one that fails adds none.
-/

namespace Grain

open Prog Eff

variable {Γ : Ctx} {α : Type}

/-- The operation adds no command-level entry. -/
@[simp]
def Op.Mute : Op → Prop
  | .emit e => e.seqId = none
  | _ => True

theorem Op.Mute.commandEmit {o : Op} (h : o.Mute) : o.commandEmit = [] := by
  cases o with
  | emit e => simp [Op.commandEmit, Op.emits, show e.seqId = none from h]
  | _ => rfl

attribute [local simp] Evidence.any_answers

/-- A piece of code that adds no command-level entry, whatever answers it gets; the results it can end with satisfy `Q`. -/
abbrev Mute (m : Eff α) (Q : α → Prop) : Prop := Safe Op.Mute Evidence.any.Answers m Q

/-! ## The entries of a run -/

section Run

variable {β : Type} {m : Eff α} {s : St}

theorem emitted_of_mute {Q : α → Prop} (h : Mute m Q) (s : St) : emitted Γ m s = [] :=
  notes_of_safe (fun o _ => Evidence.any_answers o _) (fun _ => Op.Mute.commandEmit) h s

theorem Mute.bind {f : α → Eff β} {Q : β → Prop} (hm : Mute m fun _ => True) (hf : ∀ a, Mute (f a) Q) : Mute (m >>= f) Q :=
  (safe_bind _ _ _).2 (hm.post fun a _ => hf a)

/-- The entries of a sequence with a mute first part. -/
theorem Mute.emitted_ok {Q : α → Prop} (h : Mute m Q) (f : α → Eff β) {a : α} {t : St} (hr : runEff Γ m s = (.ok a, t)) :
    emitted Γ (m >>= f) s = emitted Γ (f a) t := by
  refine (notes_bind_ok f hr).trans ?_
  rw [show notes _ _ m s = [] from emitted_of_mute h s, List.nil_append]
  rfl

theorem Mute.emitted_error {Q : α → Prop} (h : Mute m Q) (f : α → Eff β) {e : Stop} {t : St}
    (hr : runEff Γ m s = (.error e, t)) : emitted Γ (m >>= f) s = [] :=
  (notes_bind_error f hr).trans (emitted_of_mute h s)

/-- A result of mute code. -/
theorem Mute.result {Q : α → Prop} (h : Mute m Q) {a : α} (hr : (runEff Γ m s).1 = .ok a) : Q a := by
  have hstep : ∀ (o : Op) (s : St), o.Mute → True → True ∧ Evidence.any.Answers o (exec Γ o s).1 :=
    fun o _ _ _ => ⟨trivial, Evidence.any_answers o _⟩
  exact (run_safe hstep h trivial).2 a hr

theorem emitted_catchErr (m : Eff Unit) : emitted Γ (catchErr m) s = emitted Γ m s := by
  refine (notes_handle_left _ (fun e t => ?_) s).trans (notes_bind_left m (fun _ _ => rfl) s)
  cases e <;> rfl

theorem emitted_inTx (m : Eff α) : emitted Γ (inTx m) s = emitted Γ m s :=
  (notes_handle_left _ (fun _ _ => rfl) s).trans (notes_bind_left m (fun _ _ => rfl) s)

/-- The command-level entries of the attachment data. -/
def St.commandLevel (s : St) : List Emit := s.emits.filter fun e => e.seqId.isSome

theorem emits_exec (o : Op) (s : St) : (exec Γ o s).2.emits = s.emits ++ o.emits := by
  cases o with
  | emit e => rfl
  | look p =>
    rw [show Op.emits (.look p) = [] from rfl, List.append_nil]
    simp only [exec]
    cases s.store.look p <;> rfl
  | create p o =>
    rw [show Op.emits (.create p o) = [] from rfl, List.append_nil]
    simp only [exec]
    cases (s.store.create p o).1 <;> rfl
  | replaceLeaf p b =>
    rw [show Op.emits (.replaceLeaf p b) = [] from rfl, List.append_nil]
    simp only [exec]
    cases (s.store.replaceLeaf p b).1 <;> rfl
  | assign d w =>
    rw [show Op.emits (.assign d w) = [] from rfl, List.append_nil]
    simp only [exec]
    split <;> rfl
  | deleteGranule d dump | calcTreeHash dump =>
    cases dump <;> exact (List.append_nil _).symm
  | _ => exact (List.append_nil _).symm

/-- What is in the attachment data stays there. -/
theorem emits_subset_run (m : Eff α) (s : St) : s.emits ⊆ (runEff Γ m s).2.emits := by
  rw [show (runEff Γ m s).2.emits = _ from run_notes emits_exec m s]
  exact List.subset_append_left _ _

theorem commandLevel_exec (o : Op) (s : St) : (exec Γ o s).2.commandLevel = s.commandLevel ++ o.commandEmit := by
  unfold St.commandLevel Op.commandEmit
  rw [emits_exec, List.filter_append]

/-- A run adds its entries. -/
theorem commandLevel_run (m : Eff α) (s : St) : (runEff Γ m s).2.commandLevel = s.commandLevel ++ emitted Γ m s :=
  run_notes commandLevel_exec m s

end Run

/-! ## The root commands -/

/-- Code that adds entries only once nothing can fail: with an error it has added none, and else at least `k`; all satisfy `P`. -/
structure Emits (Γ : Ctx) (P : Emit → Prop) (k : Nat) (m : Eff Unit) : Prop where
  failed : ∀ s e t, runEff Γ m s = (.error e, t) → emitted Γ m s = []
  ended : ∀ s a t, runEff Γ m s = (.ok a, t) → k ≤ (emitted Γ m s).length
  all : ∀ s, ∀ e ∈ emitted Γ m s, P e

/-- The same, of code that cannot fail. -/
structure Trails (Γ : Ctx) (P : Emit → Prop) (k : Nat) (m : Eff Unit) : Prop extends Emits Γ P k m where
  ends : ∀ s, ∃ a t, runEff Γ m s = (.ok a, t)

section Rules

variable {P : Emit → Prop} {k j : Nat} {m : Eff α} {f : α → Eff Unit}

/-- Mute code before. -/
theorem Emits.bind (h : Mute m fun a => Emits Γ P k (f a)) : Emits Γ P k (m >>= f) := by
  constructor
  · intro s e t hr
    rcases hr1 : runEff Γ m s with ⟨e1 | a, u⟩
    · exact h.emitted_error f hr1
    · rw [h.emitted_ok f hr1]
      exact (h.result (by rw [hr1])).failed u e t ((run_bind_ok _ hr1).symm.trans hr)
  · intro s a t hr
    obtain ⟨a1, u, hr1, hr2⟩ := run_bind_eq_ok _ hr
    rw [h.emitted_ok f hr1]
    exact (h.result (Γ := Γ) (s := s) (congrArg Prod.fst hr1)).ended u a t hr2
  · intro s e he
    rcases hr1 : runEff Γ m s with ⟨e1 | a, u⟩
    · rw [h.emitted_error f hr1] at he
      exact absurd he List.not_mem_nil
    · rw [h.emitted_ok f hr1] at he
      exact (h.result (by rw [hr1])).all u e he

theorem Emits.after (h : Mute m fun _ => True) (hf : ∀ a, Emits Γ P k (f a)) : Emits Γ P k (m >>= f) :=
  .bind (h.post fun a _ => hf a)

/-- Code that cannot fail after. -/
theorem Emits.andThen {m : Eff Unit} {f : Unit → Eff Unit} (hm : Emits Γ P k m) (hf : ∀ a, Trails Γ P j (f a)) :
    Emits Γ P (k + j) (m >>= f) := by
  constructor
  · intro s e t hr
    rcases hr1 : runEff Γ m s with ⟨e1 | a, u⟩
    · exact (notes_bind_error f hr1).trans (hm.failed s e1 u hr1)
    · obtain ⟨b, v, hr2⟩ := (hf a).ends u
      cases ((run_bind_ok _ hr1).trans hr2).symm.trans hr
  · intro s a t hr
    obtain ⟨a1, u, hr1, hr2⟩ := run_bind_eq_ok _ hr
    have he : emitted Γ (m >>= f) s = emitted Γ m s ++ emitted Γ (f a1) u := notes_bind_ok f hr1
    have h1 := hm.ended s a1 u hr1
    have h2 := (hf a1).ended u a t hr2
    rw [he, List.length_append]
    omega
  · intro s e he
    rcases hr1 : runEff Γ m s with ⟨e1 | a, u⟩
    · rw [show emitted Γ (m >>= f) s = emitted Γ m s from notes_bind_error f hr1] at he
      exact hm.all s e he
    · rw [show emitted Γ (m >>= f) s = emitted Γ m s ++ emitted Γ (f a) u from notes_bind_ok f hr1] at he
      rcases List.mem_append.1 he with he | he
      · exact hm.all s e he
      · exact (hf a).all u e he

theorem Trails.andThen {m : Eff Unit} {f : Unit → Eff Unit} (hm : Trails Γ P k m) (hf : ∀ a, Trails Γ P j (f a)) :
    Trails Γ P (k + j) (m >>= f) := by
  refine ⟨hm.toEmits.andThen hf, fun s => ?_⟩
  obtain ⟨a, t, h1⟩ := hm.ends s
  obtain ⟨b, u, h2⟩ := (hf a).ends t
  exact ⟨b, u, (run_bind_ok _ h1).trans h2⟩

/-- Mute code that cannot fail. -/
theorem Trails.of_mute {m : Eff Unit} (h : Mute m fun _ => True) (hends : ∀ s, ∃ a t, runEff Γ m s = (.ok a, t)) :
    Trails Γ P 0 m := by
  refine ⟨⟨fun s _ _ _ => emitted_of_mute h s, fun _ _ _ _ => Nat.zero_le _, fun s e he => ?_⟩, hends⟩
  rw [emitted_of_mute h s] at he
  exact absurd he List.not_mem_nil

theorem Emits.of_mute {m : Eff Unit} (h : Mute m fun _ => True) : Emits Γ P 0 m := by
  refine ⟨fun s _ _ _ => emitted_of_mute h s, fun _ _ _ _ => Nat.zero_le _, fun s e he => ?_⟩
  rw [emitted_of_mute h s] at he
  exact absurd he List.not_mem_nil

theorem Emits.weaken {m : Eff Unit} (h : Emits Γ P k m) (hj : j ≤ k) : Emits Γ P j m :=
  ⟨h.failed, fun s a t hr => hj.trans (h.ended s a t hr), h.all⟩

theorem Emits.ite {c : Prop} [Decidable c] {m n : Eff Unit} (hm : c → Emits Γ P k m) (hn : ¬ c → Emits Γ P k n) :
    Emits Γ P k (if c then m else n) := by
  split
  · exact hm (by assumption)
  · exact hn (by assumption)

end Rules

theorem mute_getNoCreate {τ : Type} (n : Name) (cast : Payload → Option τ) (Q : Option (Leaf τ) → Prop) :
    Mute (getNoCreate Γ n cast) Q ↔ ∀ r : Option Store.Look, Q (r.bind fun z => castTo cast z.2) := by
  simp [getNoCreate, Evidence.any]

/-- The entry is one that `emit_command` makes for the command. -/
def Under (t : TParams) (index : Nat) (e : Emit) : Prop := e.txId = some t.tx.getHash ∧ e.seqId = some index

section Commands

variable {t : TParams} {i : Nat}

theorem trails_emitCommand (command body : String) : Trails Γ (Under t i) 1 (emitCommand t i command body) := by
  refine ⟨⟨fun _ _ _ h => ?_, fun _ _ _ _ => le_rfl, fun s e he => ?_⟩, fun s => ⟨(), _, rfl⟩⟩
  · cases h
  · obtain rfl := List.mem_singleton.1 he
    exact ⟨rfl, rfl⟩

theorem trails_markDirty (d : DataPtr) : Trails Γ (Under t i) 0 (markDirty d) := .of_mute (by simp) fun _ => ⟨(), _, rfl⟩

theorem trails_addGas (a : Int) : Trails Γ (Under t i) 0 (addGas a) := .of_mute (by simp) fun _ => ⟨(), _, rfl⟩

theorem trails_uncache (n : String) : Trails Γ (Under t i) 0 (uncache n) := .of_mute (by simp) fun _ => ⟨(), _, rfl⟩

/-- The erasure of a vote raises nothing. -/
theorem trails_eraseVote (d : DataPtr) (vhash : String) : Trails Γ (Under t i) 0 (assign d (.eraseVote vhash)) :=
  .of_mute (by simp) fun s => ⟨(), _, rfl⟩

/-! ### Tokens, nodes and contracts -/

attribute [local simp] getValuesNoCreate getStateNoCreate getNodeNoCreate getNodeListNoCreate getVotesNoCreate
  getContractNoCreate getContractActivityNoCreate getContractBalanceNoCreate getContractDataNoCreate getAddressStateNoCreate
  checkAddr mute_getNoCreate

theorem emits_executeMint (params : Json) : Emits Γ (Under t i) 1 (executeMint Γ params t i) := by
  unfold executeMint
  repeat
    refine .after ?_ fun _ => ?_
    · simp
  exact (trails_emitCommand _ _).toEmits

theorem emits_executeTransfer (params : Json) : Emits Γ (Under t i) 1 (executeTransfer Γ params t i) := by
  unfold executeTransfer
  repeat
    refine .after ?_ fun _ => ?_
    · simp
  exact (trails_emitCommand _ _).toEmits

theorem emits_executeNodeUpdate (params : Json) (b : BParams) : Emits Γ (Under t i) 1 (executeNodeUpdate Γ params b t i) := by
  unfold executeNodeUpdate
  repeat
    refine .after ?_ fun _ => ?_
    · simp
  refine (trails_emitCommand _ _).toEmits.andThen (j := 0) fun _ => ?_
  exact (trails_markDirty _).andThen fun _ => trails_addGas _

theorem mute_checkNameChars (l : List Char) : Mute (checkNameChars l) fun _ => True := by
  induction l with
  | nil => trivial
  | cons z zs ih => simp [checkNameChars, ih]

theorem mute_addNode (name : String) : Mute (addNode Γ name) fun _ => True := by
  simp [addNode]

theorem emits_executeNodeCreate (params : Json) (b : BParams) : Emits Γ (Under t i) 1 (executeNodeCreate Γ params b t i) := by
  unfold executeNodeCreate
  repeat
    refine .after ?_ fun _ => ?_
    · simp [mute_checkNameChars, mute_addNode]
  exact (trails_emitCommand _ _).toEmits

theorem emits_executeNodeStake (params : Json) (b : BParams) : Emits Γ (Under t i) 1 (executeNodeStake Γ params b t i) := by
  unfold executeNodeStake
  repeat
    refine .after ?_ fun _ => ?_
    · simp
  exact (trails_emitCommand _ _).toEmits.andThen fun _ => trails_markDirty _

theorem emits_executeUnstakeNode (params : Json) : Emits Γ (Under t i) 1 (executeUnstakeNode Γ params t i) := by
  unfold executeUnstakeNode
  repeat
    refine .after ?_ fun _ => ?_
    · simp [derefNode]
  exact (trails_emitCommand _ _).toEmits

theorem emits_setNodeEnabled (on : Bool) (already command : String) (gas : Int) (params : Json) :
    Emits Γ (Under t i) 1 (setNodeEnabled Γ on already command gas params t i) := by
  unfold setNodeEnabled
  repeat
    refine .after ?_ fun _ => ?_
    · simp
  exact (trails_emitCommand _ _).toEmits

theorem mute_createNew (n : Name) (o : DataObj) : Mute (createNew Γ n o) fun _ => True := by
  simp [createNew]

theorem mute_getOrCreate {τ : Type} (n : Name) (o : DataObj) (cast : Payload → Option τ) :
    Mute (getOrCreate Γ n o cast) fun _ => True := by
  simp only [getOrCreate, safe_bind, safe_create, Op.Mute, true_and]
  rintro ⟨old, d, x⟩ -
  cases old <;> simp

theorem emits_executeContractDeploy (params : Json) (b : BParams) :
    Emits Γ (Under t i) 1 (executeContractDeploy Γ params b t i) := by
  unfold executeContractDeploy
  repeat
    refine .after ?_ fun _ => ?_
    · first
      | exact mute_createNew _ _
      | simp [mute_checkNameChars, getContractActivityOrCreate, getContractBalanceOrCreate, mute_getOrCreate, ttlGas]
  exact (trails_emitCommand _ _).toEmits

theorem emits_executeContractUpdate (params : Json) : Emits Γ (Under t i) 1 (executeContractUpdate Γ params t i) := by
  unfold executeContractUpdate
  repeat
    refine .after ?_ fun _ => ?_
    · simp
  exact (trails_emitCommand _ _).toEmits.andThen fun _ => trails_uncache _

/-! ### Votes -/

theorem mute_votedStake (l : List String) (x : Int) : Mute (votedStake Γ l x) fun _ => True := by
  induction l generalizing x with
  | nil => trivial
  | cons z zs ih => simp [votedStake, ih]

/-- A vote that is applied is emitted at the end. -/
theorem emits_applyVote (b : BParams) (votes : DataPtr) (vhash param value : String) (voted : StdSet String) :
    Emits Γ (Under t i) 0 (applyVote Γ b t i votes vhash param value voted) := by
  unfold applyVote
  refine .after (by simp) fun _ => .after (mute_votedStake _ _) fun stake => .after (by simp) fun percent => ?_
  refine .ite (fun _ => ?_) fun _ => .of_mute trivial
  repeat
    refine .after ?_ fun _ => ?_
    · simp
  exact (trails_emitCommand _ _).toEmits.weaken (Nat.zero_le _)

theorem emits_executeVote (params : Json) (b : BParams) : Emits Γ (Under t i) 1 (executeVote Γ params b t i) := by
  unfold executeVote
  repeat
    refine .after ?_ fun _ => ?_
    · simp
  split
  · repeat
      refine .after ?_ fun _ => ?_
      · simp
    exact (emits_applyVote _ _ _ _ _ _).andThen fun _ => trails_emitCommand _ _
  · refine .ite (fun _ => ?_) fun _ => .after (by simp) fun _ => ?_
    · exact (trails_emitCommand _ _).toEmits.andThen fun _ => (trails_eraseVote _ _).andThen fun _ => trails_markDirty _
    · exact (emits_applyVote _ _ _ _ _ _).andThen fun _ => trails_emitCommand _ _

/-! ### Keys -/

theorem mute_addKey (u : DataPtr) (type : Nat) (kb : String) : Mute (addKey u type kb) fun _ => True := by
  simp only [addKey, derefAddress, safe_bind, safe_deref, safe_pure, Op.Mute, true_and]
  intro o _
  split
  · trivial
  · simp

theorem emits_executeAddAddressKey (params : Json) : Emits Γ (Under t i) 1 (executeAddAddressKey Γ params t i) := by
  unfold executeAddAddressKey
  repeat
    refine .after ?_ fun _ => ?_
    · simp [checkKey, mute_addKey]
  exact (trails_emitCommand _ _).toEmits

theorem emits_executeRemoveAddressKey (params : Json) : Emits Γ (Under t i) 1 (executeRemoveAddressKey Γ params t i) := by
  unfold executeRemoveAddressKey
  repeat
    refine .after ?_ fun _ => ?_
    · simp
  exact (trails_emitCommand _ _).toEmits

theorem mute_parseKeys (items : List Json) : Mute (parseKeys items) fun _ => True := by
  induction items with
  | nil => trivial
  | cons item items ih => simp [parseKeys, checkKey, ih]

theorem mute_addKeys (u : DataPtr) (ks : List (Nat × String)) : Mute (addKeys u ks) fun _ => True := by
  induction ks with
  | nil => trivial
  | cons k ks ih => simp [addKeys, mute_addKey, ih]

theorem mute_getAddressStateOrCreate (addr : String) : Mute (getAddressStateOrCreate Γ addr) fun _ => True := by
  simp only [getAddressStateOrCreate, checkAddr, safe_bind, safe_raiseIf, safe_create, Op.Mute, true_and]
  rintro - ⟨old, d, x⟩ -
  cases old <;> simp

theorem emits_executeCreateAddress (params : Json) (b : BParams) : Emits Γ (Under t i) 1 (executeCreateAddress Γ params b t i) := by
  unfold executeCreateAddress
  repeat
    refine .after ?_ fun _ => ?_
    · simp [mute_parseKeys, mute_addKeys, mute_getAddressStateOrCreate]
  exact (trails_emitCommand _ _).toEmits

/-! ### Garbage collection -/

theorem mute_writeIf {τ : Type} (ws : List Write) (x : Option (Leaf τ)) : Mute (writeIf ws x) fun _ => True := by
  cases x with
  | none => trivial
  | some l =>
    refine (safe_bind _ _ _).2 ((safe_forM fun w _ => ?_).post fun _ _ => by simp)
    simp

theorem mute_gcGranuleApply (now : Int) (cc : Option (DataPtr × DataObj)) : Mute (gcGranuleApply now cc) fun _ => True := by
  simp [gcGranuleApply]

theorem mute_eraseFromOwners (cn : String) (now : Int) (l : List String) : Mute (eraseFromOwners Γ cn now l) fun _ => True := by
  induction l with
  | nil => trivial
  | cons owner l ih => simp [eraseFromOwners, mute_writeIf, ih]

theorem mute_burnContractBalance (x : Option (Leaf Int)) : Mute (burnContractBalance Γ x) fun _ => True := by
  cases x with
  | none => trivial
  | some bal => simp [burnContractBalance, mute_writeIf]

theorem mute_gcContractApply (now : Int) (cc : Option (DataPtr × DataObj)) : Mute (gcContractApply Γ now cc) fun _ => True := by
  unfold gcContractApply
  refine .bind (by simp) fun act => .bind (by simp) fun _ => .bind (by simp) fun _ => .bind (by simp) fun contract => ?_
  refine .bind (mute_eraseFromOwners _ _ _) fun _ => .bind (by simp [mute_burnContractBalance]) fun _ => .bind ?_ fun _ => by simp
  cases contract <;> simp [deleteIf]

theorem mute_returnStakes (name : String) (now : Int) (l : List (String × Int)) (total : Int) :
    Mute (returnStakes Γ name now l total) fun _ => True := by
  induction l generalizing total with
  | nil => trivial
  | cons x l ih =>
    unfold returnStakes
    split
    · exact ih _
    · exact .bind (by simp [mute_writeIf]) fun _ => ih _

theorem mute_gcNodeApply (now : Int) (cc : Option (DataPtr × DataObj)) : Mute (gcNodeApply Γ now cc) fun _ => True := by
  unfold gcNodeApply
  refine .bind (by simp) fun n => .bind (by simp) fun _ => .bind (by simp) fun _ => .bind (mute_returnStakes _ _ _ _) fun total => ?_
  repeat
    refine .bind ?_ fun _ => ?_
    · simp [mute_writeIf]
  simp

theorem mute_gcAddressApply (now : Int) (cc : Option (DataPtr × DataObj)) : Mute (gcAddressApply Γ now cc) fun _ => True := by
  unfold gcAddressApply
  repeat
    refine .bind ?_ fun _ => ?_
    · simp [mute_writeIf]
  simp

theorem mute_gcTry {m : Eff Unit} (h : Mute m fun _ => True) (counted cnt : GcCounts) : Mute (gcTry m counted cnt) fun _ => True := by
  refine safe_handle (Mute.bind h fun _ => trivial) fun e => ?_
  cases e <;> trivial

theorem mute_gcItem (now : Int) (cnt : GcCounts) (z : Store.Look) : Mute (gcItem Γ now cnt z) fun _ => True := by
  unfold gcItem
  split
  · trivial
  · exact mute_gcTry (mute_gcGranuleApply _ _) _ _
  · exact mute_gcTry (mute_gcContractApply _ _) _ _
  · exact mute_gcTry (mute_gcNodeApply _ _) _ _
  · exact mute_gcTry (mute_gcAddressApply _ _) _ _
  · trivial

theorem mute_gcKey (now : Int) (hex : String) (cnt : GcCounts) : Mute (gcKey Γ now hex cnt) fun _ => True := by
  unfold gcKey
  refine .bind (by simp) fun h => ?_
  split
  · trivial
  · refine .bind (by simp) fun r => ?_
    cases r with
    | none => trivial
    | some z => exact mute_gcItem _ _ _

theorem mute_gcItems (now : Int) (items : List Json) (cnt : GcCounts) : Mute (gcItems Γ now items cnt) fun _ => True := by
  induction items generalizing cnt with
  | nil => trivial
  | cons item items ih =>
    cases item with
    | str hex => exact .bind (mute_gcKey _ _ _) fun cnt => ih cnt
    | _ => exact ih _

theorem emits_executeGc (params : Json) : Emits Γ (Under t i) 1 (executeGc Γ params t i) := by
  unfold executeGc
  refine .after (by simp) fun v => .after (by simp) fun _ => .after (by simp) fun items => .after (mute_gcItems _ _ _) fun cnt => ?_
  refine ((trails_emitCommand _ _).andThen fun _ => ?_).toEmits.weaken (j := 1) (k := 1 + (1 + (1 + (1 + 1)))) (by decide)
  refine (trails_emitCommand _ _).andThen fun _ => (trails_emitCommand _ _).andThen fun _ => ?_
  exact (trails_emitCommand _ _).andThen fun _ => trails_emitCommand _ _

/-- A root command that fails has added no entry; one that succeeds has added at least one, all of them its own. -/
theorem emits_executeRoot (b : BParams) (method : String) (params : Json) :
    Emits Γ (Under t i) 1 (executeRoot Γ b t i method params) := by
  unfold executeRoot
  split
  · exact emits_executeMint _
  · exact emits_executeTransfer _
  · exact emits_executeNodeCreate _ _
  · exact emits_executeNodeUpdate _ _
  · exact emits_executeNodeStake _ _
  · exact emits_executeUnstakeNode _
  · exact emits_setNodeEnabled _ _ _ _ _
  · exact emits_setNodeEnabled _ _ _ _ _
  · exact emits_executeContractDeploy _ _
  · exact emits_executeContractUpdate _
  · exact emits_executeVote _ _
  · exact emits_executeGc _
  · exact emits_executeCreateAddress _ _
  · exact emits_executeAddAddressKey _
  · exact emits_executeRemoveAddressKey _
  · refine ⟨fun _ _ _ _ => rfl, fun s a t h => ?_, fun s e he => absurd he List.not_mem_nil⟩
    cases h

end Commands

end Grain
