import Grain.Execute
import Grain.Lemmas.Track

/-!
# What a command can do

`Footprint` lists the operations a command of a transaction can ask for, together with what the code has been shown before it
asks: a leaf is written only through a pointer that a lookup returned (`Handle`), keys are written only after the ownership
check, and only granules that are no address are deleted. It is proved once for every root command and for every contract
call, whatever the contract's code does; the invariants are derived from it.
-/

namespace Grain

open Prog Eff

/-! ## The safety of the basic pieces of code -/

section Basic

variable {P : Op → Prop} {R : (o : Op) → Resp o → Prop} {α : Type}

@[simp] theorem safe_err (msg : String) (Q : α → Prop) : Safe P R (err msg : Eff α) Q ↔ True := Iff.rfl
@[simp] theorem safe_exn (e : Exn) (Q : α → Prop) : Safe P R (exn e : Eff α) Q ↔ True := Iff.rfl
@[simp] theorem safe_commonError (msg : String) (Q : α → Prop) : Safe P R (commonError msg : Eff α) Q ↔ True := Iff.rfl

@[simp] theorem safe_failIf (c : Prop) [Decidable c] (msg : String) (Q : Unit → Prop) :
    Safe P R (failIf c msg) Q ↔ (¬ c → Q ()) := by
  by_cases h : c <;> simp [failIf, h]

@[simp] theorem safe_raiseIf (c : Prop) [Decidable c] (msg : String) (Q : Unit → Prop) :
    Safe P R (raiseIf c msg) Q ↔ (¬ c → Q ()) := by
  by_cases h : c <;> simp [raiseIf, h]

@[simp] theorem safe_doIf (c : Prop) [Decidable c] (m : Eff Unit) (Q : Unit → Prop) :
    Safe P R (doIf c m) Q ↔ (c → Safe P R m Q) ∧ (¬ c → Q ()) := by
  by_cases h : c <;> simp [doIf, h]

@[simp] theorem safe_lift (x : Except Stop α) (Q : α → Prop) : Safe P R (lift x) Q ↔ ∀ a, x = .ok a → Q a :=
  safe_ofExcept x Q

@[simp] theorem safe_quot (a b : Int) (Q : Int → Prop) : Safe P R (quot a b) Q ↔ (b ≠ 0 → Q (a.tdiv b)) := by
  by_cases h : b = 0 <;> simp [quot, h]

@[simp] theorem safe_need (x : Option α) (Q : α → Prop) : Safe P R (need x) Q ↔ ∀ a, x = some a → Q a := by
  cases x <;> simp [need]

@[simp] theorem safe_orErr (msg : String) (x : Option α) (Q : α → Prop) :
    Safe P R (orErr msg x) Q ↔ ∀ a, x = some a → Q a := by
  cases x <;> simp [orErr]

@[simp] theorem safe_op (o : Op) (Q : Resp o → Prop) : Safe P R (op o) Q ↔ P o ∧ ∀ r, R o r → Q r := Iff.rfl

@[simp] theorem safe_look (p : Path) (Q : Option Store.Look → Prop) :
    Safe P R (look p) Q ↔ P (.look p) ∧ ∀ r, R (.look p) (.ok r) → Q r := by
  simp only [look, safe_bind, safe_ofExcept]
  exact and_congr_right fun _ => ⟨fun h r hr => h _ hr r rfl, fun h r hr a ha => h a (ha ▸ hr)⟩

@[simp] theorem safe_create (p : Path) (o : DataObj) (Q : Bool × DataPtr × DataObj → Prop) :
    Safe P R (create p o) Q ↔ P (.create p o) ∧ ∀ r, R (.create p o) (.ok r) → Q r := by
  simp only [create, safe_bind, safe_ofExcept]
  exact and_congr_right fun _ => ⟨fun h r hr => h _ hr r rfl, fun h r hr a ha => h a (ha ▸ hr)⟩

@[simp] theorem safe_assign (d : DataPtr) (w : Write) (Q : Unit → Prop) :
    Safe P R (assign d w) Q ↔ P (.assign d w) ∧ (R (.assign d w) (.ok ()) → Q ()) := by
  simp only [assign, safe_bind, safe_ofExcept]
  exact and_congr_right fun _ => ⟨fun h hr => h _ hr () rfl, fun h r hr a ha => h (ha ▸ hr)⟩

@[simp] theorem safe_deref (d : DataPtr) (Q : DataObj → Prop) :
    Safe P R (deref d) Q ↔ P (.deref d) ∧ ∀ r, R (.deref d) r → Q r := Iff.rfl
@[simp] theorem safe_setDirty (d : DataPtr) (roll : Bool) (Q : Unit → Prop) :
    Safe P R (setDirty d roll) Q ↔ P (.setDirty d roll) ∧ ∀ r, R (.setDirty d roll) r → Q r := Iff.rfl
@[simp] theorem safe_markDirty (d : DataPtr) (Q : Unit → Prop) :
    Safe P R (markDirty d) Q ↔ P (.setDirty d true) ∧ ∀ r, R (.setDirty d true) r → Q r := Iff.rfl
@[simp] theorem safe_deleteGranule (d : DataPtr) (dump : Dump) (Q : Unit → Prop) :
    Safe P R (deleteGranule d dump) Q ↔ P (.deleteGranule d dump) ∧ ∀ r, R (.deleteGranule d dump) r → Q r := Iff.rfl
@[simp] theorem safe_calcTreeHash (dump : Dump) (Q : Unit → Prop) :
    Safe P R (calcTreeHash dump) Q ↔ P (.calcTreeHash dump) ∧ ∀ r, R (.calcTreeHash dump) r → Q r := Iff.rfl
@[simp] theorem safe_beginTx (v : Int) (Q : Unit → Prop) :
    Safe P R (beginTx v) Q ↔ P (.beginTx v) ∧ ∀ r, R (.beginTx v) r → Q r := Iff.rfl
@[simp] theorem safe_endTx (Q : Unit → Prop) : Safe P R endTx Q ↔ P .endTx ∧ ∀ r, R .endTx r → Q r := Iff.rfl
@[simp] theorem safe_value (Q : Int → Prop) : Safe P R value Q ↔ P .value ∧ ∀ r, R .value r → Q r := Iff.rfl
@[simp] theorem safe_addValue (a : Int) (Q : Unit → Prop) :
    Safe P R (addValue a) Q ↔ P (.addValue a) ∧ ∀ r, R (.addValue a) r → Q r := Iff.rfl
@[simp] theorem safe_gasUsed (Q : Int → Prop) : Safe P R gasUsed Q ↔ P .gasUsed ∧ ∀ r, R .gasUsed r → Q r := Iff.rfl
@[simp] theorem safe_addGas (a : Int) (Q : Unit → Prop) :
    Safe P R (addGas a) Q ↔ P (.addGas a) ∧ ∀ r, R (.addGas a) r → Q r := Iff.rfl
@[simp] theorem safe_pend (d : DataPtr) (Q : Unit → Prop) :
    Safe P R (pend d) Q ↔ P (.pend d) ∧ ∀ r, R (.pend d) r → Q r := Iff.rfl
@[simp] theorem safe_pending (Q : List DataPtr → Prop) :
    Safe P R pending Q ↔ P .pending ∧ ∀ r, R .pending r → Q r := Iff.rfl
@[simp] theorem safe_dumpSize (Q : Nat → Prop) : Safe P R dumpSize Q ↔ P .dumpSize ∧ ∀ r, R .dumpSize r → Q r := Iff.rfl
@[simp] theorem safe_rollSize (Q : Nat → Prop) : Safe P R rollSize Q ↔ P .rollSize ∧ ∀ r, R .rollSize r → Q r := Iff.rfl
@[simp] theorem safe_mergeDump (Q : Unit → Prop) :
    Safe P R mergeDump Q ↔ P .mergeDump ∧ ∀ r, R .mergeDump r → Q r := Iff.rfl
@[simp] theorem safe_saveRoot (Q : Hash → Prop) :
    Safe P R saveRoot Q ↔ P .saveRoot ∧ ∀ r, R .saveRoot r → Q r := Iff.rfl
@[simp] theorem safe_emit (e : Emit) (Q : Unit → Prop) :
    Safe P R (emit e) Q ↔ P (.emit e) ∧ ∀ r, R (.emit e) r → Q r := Iff.rfl
@[simp] theorem safe_reward (a : Int) (Q : Unit → Prop) :
    Safe P R (reward a) Q ↔ P (.reward a) ∧ ∀ r, R (.reward a) r → Q r := Iff.rfl
@[simp] theorem safe_rewards (Q : Int → Prop) : Safe P R rewards Q ↔ P .rewards ∧ ∀ r, R .rewards r → Q r := Iff.rfl
@[simp] theorem safe_overflow (Q : Unit → Prop) :
    Safe P R overflow Q ↔ P .overflow ∧ ∀ r, R .overflow r → Q r := Iff.rfl
@[simp] theorem safe_cached (n : String) (Q : Option ContractContext → Prop) :
    Safe P R (cached n) Q ↔ P (.cached n) ∧ ∀ r, R (.cached n) r → Q r := Iff.rfl
@[simp] theorem safe_cache (n : String) (cc : ContractContext) (Q : Unit → Prop) :
    Safe P R (cache n cc) Q ↔ P (.cache n cc) ∧ ∀ r, R (.cache n cc) r → Q r := Iff.rfl
@[simp] theorem safe_uncache (n : String) (Q : Unit → Prop) :
    Safe P R (uncache n) Q ↔ P (.uncache n) ∧ ∀ r, R (.uncache n) r → Q r := Iff.rfl
@[simp] theorem safe_setHandler (n : String) (on : Bool) (Q : Unit → Prop) :
    Safe P R (setHandler n on) Q ↔ P (.setHandler n on) ∧ ∀ r, R (.setHandler n on) r → Q r := Iff.rfl
@[simp] theorem safe_handler (n : String) (Q : Bool → Prop) :
    Safe P R (handler n) Q ↔ P (.handler n) ∧ ∀ r, R (.handler n) r → Q r := Iff.rfl

@[simp] theorem safe_rollback (Q : Unit → Prop) : Safe P R rollback Q ↔ P .rollback ∧ (R .rollback (.ok ()) → Q ()) := by
  simp only [rollback, safe_bind, safe_ofExcept]
  exact and_congr_right fun _ => ⟨fun h hr => h _ hr () rfl, fun h r hr a ha => h (ha ▸ hr)⟩

end Basic

/-! ## Evidence -/

/-- What the answers of the store can be: the results of lookups and of creations, and the granules that are waiting to be
deleted. -/
structure Evidence where
  seen : Path → Option Store.Look → Prop
  made : Path → DataObj → Bool × DataPtr × DataObj → Prop
  pended : DataPtr → Prop

namespace Evidence

variable (ev : Evidence)

/-- The answers agree with the evidence. -/
@[simp]
def Answers : (o : Op) → Resp o → Prop
  | .look p, .ok r => ev.seen p r
  | .create p o, .ok r => ev.made p o r
  | .pending, l => ∀ d ∈ l, ev.pended d
  | _, _ => True

/-- A lookup has shown the object under the pointer. -/
def Shown (d : DataPtr) (o : DataObj) : Prop := ∃ p i, p.length = 5 ∧ ev.seen p (some (i, some (d, o)))

/-- The pointer was returned by a lookup or by a creation. -/
def Handle (d : DataPtr) : Prop := (∃ o, ev.Shown d o) ∨ ∃ p o b o', p.length = 5 ∧ ev.made p o (b, d, o')

/-- The leaf was found under the path, with a payload of the type. -/
def Found {τ : Type} (p : Path) (cast : Payload → Option τ) (l : Leaf τ) : Prop :=
  ∃ i, ev.seen p (some (i, some (l.ptr, l.obj))) ∧ cast l.obj.payload = some l.val

/-- The payloads that are deleted as granules. -/
def Deletable : Payload → Prop
  | .contractData _ => True
  | .contract _ => True
  | .contractBalance _ => True
  | .contractActivity _ => True
  | .node _ => True
  | _ => False

end Evidence

variable (Γ : Ctx) (ev : Evidence) (t : TParams) (c : Command)

/-- The command is one of the two that change the keys of the address, and the address has the transaction's public key. -/
def OwnerCommand (d : DataPtr) : Prop :=
  ∃ hex addr u, c.contract = "root" ∧ (c.method = "add_address_key" ∨ c.method = "remove_address_key") ∧
    yyGetString c.params "addr" = .ok hex ∧ base16Decode hex = .ok addr ∧
    ev.Found (Γ.path (Name.addressState addr).text) Payload.address? u ∧ u.ptr = d ∧ isOwner u.val t.tx.pkEdBin = true

/-- The pointer is to a leaf made for an address that a lookup did not find. -/
def NewAddress (d : DataPtr) : Prop :=
  ∃ addr r o b o', ev.seen (Γ.path (Name.addressState addr).text) r ∧
    (r.bind fun z => castTo Payload.address? z.2).isNone ∧ ev.made (Γ.path (Name.addressState addr).text) o (b, d, o')

/-- The command is a collection that names the leaf, which holds an address. -/
def GcAddress (d : DataPtr) : Prop :=
  ∃ items hex h i o, c.contract = "root" ∧ c.method = "gc" ∧ (c.params.objGet "items").bind Json.elems? = some items ∧
    Json.str hex ∈ items ∧ base16Decode (cstr hex) = .ok h ∧ ev.seen (Γ.pathFromHash h) (some (i, some (d, o))) ∧
    (o.payload.address?).isSome ∧ 0 < o.ttl

/-- The writes a command can make. -/
def CanWrite (d : DataPtr) (w : Write) : Prop :=
  ev.Handle d ∧ match w with
    | .incNonce => False
    | .insertKey _ => OwnerCommand Γ ev t c d ∨ NewAddress Γ ev d
    | .removeKey _ => OwnerCommand Γ ev t c d
    | .clearKeys => GcAddress Γ ev c d
    | _ => True

/-- The operations a command can ask for. -/
@[simp]
def Footprint : Op → Prop
  | .look p => p.length = 5
  | .create p _ => p.length = 5
  | .assign d w => CanWrite Γ ev t c d w
  | .setDirty d roll => roll = true ∧ ev.Handle d
  | .deleteGranule d dump => dump = .saveZ ∧ ∃ o, ev.Shown d o ∧ Evidence.Deletable o.payload
  | .pend d => ∃ o, ev.Shown d o ∧ Evidence.Deletable o.payload
  | .deref _ | .value | .addValue _ | .gasUsed | .addGas _ | .emit _ | .cached _ | .cache _ _ | .uncache _ | .setHandler _ _
  | .handler _ => True
  | .replaceLeaf _ _ | .calcTreeHash _ | .rollback | .beginTx _ | .endTx | .pending | .dumpSize | .rollSize | .mergeDump | .saveRoot
  | .reward _ | .rewards | .overflow => False

/-- A piece of a command's code asks only for what the command can ask for. -/
abbrev Fits {α : Type} (m : Eff α) (Q : α → Prop) : Prop := Safe (Footprint Γ ev t c) ev.Answers m Q

section Lookups

variable {Γ ev t c}

theorem Evidence.Found.shown {τ : Type} {n : Name} {cast : Payload → Option τ} {l : Leaf τ}
    (h : ev.Found (Γ.path n.text) cast l) : ev.Shown l.ptr l.obj :=
  ⟨_, h.choose, Γ.path_length _, h.choose_spec.1⟩

theorem Evidence.Found.handle {τ : Type} {n : Name} {cast : Payload → Option τ} {l : Leaf τ}
    (h : ev.Found (Γ.path n.text) cast l) : ev.Handle l.ptr := .inl ⟨_, h.shown⟩

theorem castTo_eq_some {τ : Type} {cast : Payload → Option τ} {x : Option (DataPtr × DataObj)} {l : Leaf τ} :
    castTo cast x = some l ↔ x = some (l.ptr, l.obj) ∧ cast l.obj.payload = some l.val := by
  obtain ⟨d, o, v⟩ := l
  rcases x with _ | ⟨d', o'⟩
  · simp [castTo]
  · simp only [castTo, Option.map_eq_some_iff, Leaf.mk.injEq, Option.some.injEq, Prod.mk.injEq]
    constructor
    · rintro ⟨a, h1, rfl, rfl, rfl⟩
      exact ⟨⟨rfl, rfl⟩, h1⟩
    · rintro ⟨⟨rfl, rfl⟩, h1⟩
      exact ⟨v, h1, rfl, rfl, rfl⟩

theorem bind_castTo {τ : Type} {cast : Payload → Option τ} {r : Option Store.Look} {l : Leaf τ} :
    (r.bind fun z => castTo cast z.2) = some l ↔
      ∃ i, r = some (i, some (l.ptr, l.obj)) ∧ cast l.obj.payload = some l.val := by
  rcases r with _ | ⟨i, x⟩
  · simp
  · simp only [Option.bind_some, castTo_eq_some, Option.some.injEq, Prod.mk.injEq]
    exact ⟨fun ⟨h1, h2⟩ => ⟨i, ⟨rfl, h1⟩, h2⟩, fun ⟨_, ⟨_, h1⟩, h2⟩ => ⟨h1, h2⟩⟩

/-- A typed lookup, with its raw result. -/
theorem safe_getNoCreate {P : Op → Prop} {τ : Type} (n : Name) (cast : Payload → Option τ) (Q : Option (Leaf τ) → Prop)
    (hP : P (.look (Γ.path n.text))) : Safe P ev.Answers (getNoCreate Γ n cast) Q ↔
      ∀ r, ev.seen (Γ.path n.text) r → Q (r.bind fun z => castTo cast z.2) := by
  simp [getNoCreate, hP]

/-- A typed lookup: what it returns was found. -/
theorem safe_get {P : Op → Prop} {τ : Type} {n : Name} {cast : Payload → Option τ} {Q : Option (Leaf τ) → Prop}
    (hP : P (.look (Γ.path n.text))) (h0 : Q none)
    (h : ∀ l, ev.Found (Γ.path n.text) cast l → ev.Handle l.ptr → Q (some l)) :
    Safe P ev.Answers (getNoCreate Γ n cast) Q := by
  refine (safe_getNoCreate n cast Q hP).2 fun r hr => ?_
  rcases hx : r.bind fun z => castTo cast z.2 with _ | l
  · exact h0
  · obtain ⟨i, rfl, hl⟩ := bind_castTo.1 hx
    have hf : ev.Found (Γ.path n.text) cast l := ⟨i, hr, hl⟩
    exact h l hf hf.handle

theorem fits_getNoCreate {τ : Type} (n : Name) (cast : Payload → Option τ) (Q : Option (Leaf τ) → Prop) :
    Fits Γ ev t c (getNoCreate Γ n cast) Q ↔
      ∀ r, ev.seen (Γ.path n.text) r → Q (r.bind fun z => castTo cast z.2) :=
  safe_getNoCreate n cast Q (Γ.path_length _)

theorem fits_get {τ : Type} {n : Name} {cast : Payload → Option τ} {Q : Option (Leaf τ) → Prop} (h0 : Q none)
    (h : ∀ l, ev.Found (Γ.path n.text) cast l → ev.Handle l.ptr → Q (some l)) : Fits Γ ev t c (getNoCreate Γ n cast) Q :=
  safe_get (Γ.path_length _) h0 h

theorem fits_get_use {τ : Type} (n : Name) (cast : Payload → Option τ) {use : Option (Leaf τ) → Eff (Leaf τ)}
    (huse : ∀ x Q, Fits Γ ev t c (use x) Q ↔ ∀ a, x = some a → Q a) (Q : Leaf τ → Prop) :
    Fits Γ ev t c (getNoCreate Γ n cast >>= use) Q ↔ ∀ l, ev.Found (Γ.path n.text) cast l → ev.Handle l.ptr → Q l := by
  rw [Fits, safe_bind]
  constructor
  · rintro h l ⟨i, h1, h2⟩ -
    exact (huse _ _).1 ((fits_getNoCreate n cast _).1 h _ h1) l (bind_castTo.2 ⟨i, rfl, h2⟩)
  · intro h
    refine fits_get ((huse _ _).2 (by simp)) fun l hl hh => (huse _ _).2 ?_
    intro a ha
    exact (Option.some.inj ha) ▸ h l hl hh

@[simp high] theorem fits_get_need {τ : Type} (n : Name) (cast : Payload → Option τ) (Q : Leaf τ → Prop) :
    Fits Γ ev t c (getNoCreate Γ n cast >>= need) Q ↔ ∀ l, ev.Found (Γ.path n.text) cast l → ev.Handle l.ptr → Q l :=
  fits_get_use n cast (fun _ _ => safe_need _ _) Q

@[simp high] theorem fits_get_orErr {τ : Type} (n : Name) (cast : Payload → Option τ) (msg : String) (Q : Leaf τ → Prop) :
    Fits Γ ev t c (getNoCreate Γ n cast >>= orErr msg) Q ↔ ∀ l, ev.Found (Γ.path n.text) cast l → ev.Handle l.ptr → Q l :=
  fits_get_use n cast (fun _ _ => safe_orErr _ _ _) Q

theorem fits_getAddressStateNoCreate (addr : String) (Q : Option (Leaf BcAddressState) → Prop) :
    Fits Γ ev t c (getAddressStateNoCreate Γ addr) Q ↔
      (addr ≠ "" → Fits Γ ev t c (getNoCreate Γ (.addressState addr) Payload.address?) Q) := by
  simp [getAddressStateNoCreate, checkAddr]

@[simp high] theorem fits_getAddress_orErr (addr msg : String) (Q : Leaf BcAddressState → Prop) :
    Fits Γ ev t c (getAddressStateNoCreate Γ addr >>= orErr msg) Q ↔
      (addr ≠ "" → ∀ l, ev.Found (Γ.path (Name.addressState addr).text) Payload.address? l → ev.Handle l.ptr → Q l) := by
  have h : Fits Γ ev t c _ Q ↔ _ := fits_get_orErr (.addressState addr) Payload.address? msg Q
  rw [Fits, safe_bind] at h ⊢
  rw [← h]
  exact fits_getAddressStateNoCreate addr _

/-- A lookup that creates. -/
@[simp high] theorem fits_create (n : Name) (o : DataObj) (Q : Bool × DataPtr × DataObj → Prop) :
    Fits Γ ev t c (create (Γ.path n.text) o) Q ↔
      ∀ b d o', ev.made (Γ.path n.text) o (b, d, o') → ev.Handle d → Q (b, d, o') := by
  simp only [safe_create, Footprint, Γ.path_length, true_and, Evidence.Answers, Prod.forall]
  exact ⟨fun h b d o' hm _ => h b d o' hm, fun h b d o' hm => h b d o' hm (.inr ⟨_, o, b, o', Γ.path_length _, hm⟩)⟩

@[simp] theorem fits_createNew (n : Name) (o : DataObj) (Q : DataPtr → Prop) :
    Fits Γ ev t c (createNew Γ n o) Q ↔ ∀ d o', ev.made (Γ.path n.text) o (false, d, o') → ev.Handle d → Q d := by
  simp +contextual [createNew]

theorem fits_getOrCreate {τ : Type} {n : Name} {o : DataObj} {cast : Payload → Option τ} {Q : Option DataPtr → Prop}
    (h0 : Q none) (h : ∀ d, ev.Handle d → Q (some d)) : Fits Γ ev t c (getOrCreate Γ n o cast) Q := by
  simp only [getOrCreate, safe_bind, fits_create]
  intro b d o' hm hd
  cases b
  · simp [h, hd]
  · cases hc : cast o'.payload <;> simp [castTo, hc, h, hd, h0]

end Lookups

end Grain
