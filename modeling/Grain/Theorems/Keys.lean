import Grain.Lemmas.Idle
import Grain.Lemmas.Watch
import Grain.Genesis

/-!
# Who can change the keys of an address

The signature of a transaction is checked against a key of its sender, but the two commands that change keys decide ownership
from the public key that the transaction carries, which no signature covers. The keys of an address change only by its owner's
commands as long as the two agree (`Owned`).
-/

namespace Grain

open Prog Eff Store

variable (Γ : Ctx) (A : String)

/-- The object that the lookups show under a path. -/
def Store.objAt (s : Store) (p : Path) : Option DataObj :=
  match s.look p with
  | .ok (some (_, some (_, o))) => some o
  | _ => none

/-- The address state that the lookups show. -/
def addressOf (s : St) : Option BcAddressState :=
  (s.store.objAt (Γ.path (Name.addressState A).text)).bind fun o => o.payload.address?

/-- The key set of an address. -/
def keysOf (s : St) : Option (StdMap Nat Key) := (addressOf Γ A s).map (·.keys)

/-- The address exists, and the cells on the way to its leaf are recorded in the hashes of their parents. -/
def Linked (s : St) : Prop := s.store.linked (Γ.path (Name.addressState A).text) [] = true ∧ (keysOf Γ A s).isSome

/-- Some key of the set verifies the transaction's signature. -/
def SignedBy (tx : TX) (keys : StdMap Nat Key) : Prop :=
  ∃ (id : Nat) (k : Key), keys[id]? = some k ∧ verify Γ k tx.sigEdBin tx.getHash = .ok true

/-- The public key that the transaction carries is not in the address's key set, or a key of the set verifies the
transaction's signature. -/
def Owned (tx : TX) (s : St) : Prop := ∀ u, addressOf Γ A s = some u → isOwner u tx.pkEdBin = true → SignedBy Γ tx u.keys

/-- The transaction has a command that adds or removes a key of the address. -/
def HasKeyCommand (tx : TX) : Prop :=
  ∃ c hex, HasCommand Γ tx c ∧ c.contract = "root" ∧ (c.method = "add_address_key" ∨ c.method = "remove_address_key") ∧
    yyGetString c.params "addr" = .ok hex ∧ base16Decode hex = .ok A

/-- The transaction has a command that collects the leaf of the address. -/
def HasGcAddress (tx : TX) : Prop :=
  ∃ c items hex h, HasCommand Γ tx c ∧ c.contract = "root" ∧ c.method = "gc" ∧
    (c.params.objGet "items").bind Json.elems? = some items ∧ Json.str hex ∈ items ∧ base16Decode (cstr hex) = .ok h ∧
    Γ.pathFromHash h = Γ.path (Name.addressState A).text

/-- One change of a key set by a transaction, `keys` being the set before the transaction. -/
inductive KeyStep (tx : TX) (keys : StdMap Nat Key) : StdMap Nat Key → StdMap Nat Key → Prop
  | add (hc : HasKeyCommand Γ A tx) (hs : SignedBy Γ tx keys) (k : Key) (m : StdMap Nat Key) : KeyStep tx keys m (m.insert k.id k)
  | remove (hc : HasKeyCommand Γ A tx) (hs : SignedBy Γ tx keys) (id : Nat) (m : StdMap Nat Key) : KeyStep tx keys m (m.erase id)
  | gc (hc : HasGcAddress Γ A tx) (m : StdMap Nat Key) : KeyStep tx keys m ∅

/-- The key set before a transaction and the one after it differ by changes that the transaction is entitled to. -/
def KeysChange (tx : TX) (s t : St) : Prop :=
  ∃ keys keys', keysOf Γ A s = some keys ∧ keysOf Γ A t = some keys' ∧ Relation.ReflTransGen (KeyStep Γ A tx keys) keys keys'

variable {Γ A}

/-! ## Writes and keys -/

/-- The writes other than those to the keys leave the key set of an address as it is. -/
theorem keys_apply {wr : Write} {o : DataObj} {u : BcAddressState} (ho : o.payload = .addressState u)
    (h1 : ∀ k, wr ≠ .insertKey k) (h2 : ∀ id, wr ≠ .removeKey id) (h3 : wr ≠ .clearKeys) :
    ∃ u', (wr.apply o).payload = .addressState u' ∧ u'.keys = u.keys := by
  cases wr with
  | insertKey k => exact absurd rfl (h1 k)
  | removeKey id => exact absurd rfl (h2 id)
  | clearKeys => exact absurd rfl h3
  | _ => simp [Write.apply, Write.payload, Payload.mapAddressState, Payload.mapContract, Payload.mapNode, Payload.mapState,
      Payload.mapNodelist, Payload.mapValues, Payload.mapVotes, ho]

/-- Ownership during a transaction comes from ownership before it, or from a signature of the owner's. -/
theorem signed_of_isOwner {tx : TX} {keys : StdMap Nat Key} {u : BcAddressState}
    (hs : (∃ z ∈ keys.toList, z.2.keybuffer = tx.pkEdBin) → SignedBy Γ tx keys)
    (hk : Relation.ReflTransGen (KeyStep Γ A tx keys) keys u.keys) (ho : isOwner u tx.pkEdBin = true) : SignedBy Γ tx keys := by
  rcases Relation.ReflTransGen.cases_tail hk with he | ⟨m, -, hstep⟩
  · refine hs ?_
    simpa [isOwner, ← he] using ho
  · generalize hm : u.keys = keys' at hstep
    cases hstep with
    | add _ h => exact h
    | remove _ h => exact h
    | gc _ => simp [isOwner, hm] at ho

theorem text_addressState_injective {a b : String} (h : Γ.path (Name.addressState a).text = Γ.path (Name.addressState b).text) :
    a = b := by
  exact String.append_right_inj _ |>.1 (Γ.path_inj h)

/-! ## One transaction -/

/-- The leaf of the address, watched with a property of its key set. -/
def keysWatch (q : CellPtr) (hq : q.length = 5) (K : StdMap Nat Key → Prop) : Watch where
  q := q
  V _ o := ∃ u, o.payload = .addressState u ∧ K u.keys
  L o := ∃ u, o.payload = .addressState u ∧ K u.keys
  length_q := hq
  logs _ _ h := h
  kept := by
    rintro _ o ⟨u, hu, -⟩
    simp [hu, Evidence.Deletable]

theorem keeps_of_not_key {w : Watch} {K : StdMap Nat Key → Prop} (hw : w.V = fun _ o => ∃ u, o.payload = .addressState u ∧ K u.keys)
    {d : DataPtr} {wr : Write} (h1 : ∀ k, wr ≠ .insertKey k) (h2 : ∀ id, wr ≠ .removeKey id) (h3 : wr ≠ .clearKeys) :
    w.Keeps d wr := by
  intro _ o ho
  rw [hw] at ho ⊢
  obtain ⟨u, hu, hk⟩ := ho
  obtain ⟨u', hu', he⟩ := keys_apply hu h1 h2 h3
  exact ⟨u', hu', he ▸ hk⟩

/-- The frame's writes are to no keys. -/
theorem keeps_frameWrite {q : CellPtr} {hq : q.length = 5} {K : StdMap Nat Key → Prop} {ev : Evidence} {d : DataPtr} {wr : Write}
    (h : FrameWrite ev d wr) : (keysWatch q hq K).Keeps d wr := by
  refine keeps_of_not_key rfl ?_ ?_ ?_ <;> obtain ⟨-, rfl | ⟨a, rfl⟩ | ⟨a, rfl⟩⟩ := h <;> simp

/-- The writes of a transaction change the watched keys only as the transaction is entitled to. -/
theorem keeps_txWrite {tx : TX} {keys : StdMap Nat Key} {q : CellPtr} (hq : q.length = 5)
    (hp : getDbId q = Γ.path (Name.addressState A).text)
    (hs : (∃ z ∈ keys.toList, z.2.keybuffer = tx.pkEdBin) → SignedBy Γ tx keys) {d : DataPtr} {wr : Write}
    (h : TxWrite Γ (keysWatch q hq (Relation.ReflTransGen (KeyStep Γ A tx keys) keys)).evidence tx d wr) :
    (keysWatch q hq (Relation.ReflTransGen (KeyStep Γ A tx keys) keys)).Keeps d wr := by
  set w := keysWatch q hq (Relation.ReflTransGen (KeyStep Γ A tx keys) keys) with hw
  rcases h with ⟨t, c, rfl, hc, hh, hwr⟩ | ⟨-, rfl | ⟨a, rfl⟩⟩
  rotate_left
  · exact keeps_of_not_key rfl (by simp) (by simp) (by simp)
  · exact keeps_of_not_key rfl (by simp) (by simp) (by simp)
  -- a command of the owner is about this address, and the ownership check has seen the keys of the leaf
  have howner : d.parent = w.q → OwnerCommand Γ w.evidence t c d → HasKeyCommand Γ A t.tx ∧ SignedBy Γ t.tx keys := by
    rintro hd ⟨hex, addr, u, hroot, hm, hhex, haddr, ⟨i, hseen, hu⟩, rfl, hown⟩
    obtain ⟨h1, -, h3⟩ := hseen.1 i u.ptr u.obj rfl
    have hpath : Γ.path (Name.addressState addr).text = w.path := by rw [← h1, hd, Watch.path]
    obtain rfl : addr = A := text_addressState_injective (hpath.trans hp)
    obtain ⟨v, hv, hk⟩ := (h3 hpath).2
    obtain rfl : u.val = v := by simpa [hv, Payload.address?] using hu.symm
    exact ⟨⟨c, hex, hc, hroot, hm, hhex, haddr⟩, signed_of_isOwner hs hk hown⟩
  cases wr with
  | insertKey k =>
    rintro hd o ⟨u, hu, hk⟩
    rcases hwr with hown | ⟨addr, r, o', b, o'', hseen, hnone, hmade⟩
    · obtain ⟨hcmd, hsig⟩ := howner hd hown
      exact ⟨{ u with keys := u.keys.insert k.id k }, by simp [Write.apply, Write.payload, Payload.mapAddressState, hu],
        hk.tail (.add hcmd hsig k _)⟩
    · -- a leaf made for an address that was not found is another one
      have hpath : Γ.path (Name.addressState addr).text = w.path := by rw [← hmade.1, hd, Watch.path]
      obtain ⟨i, d', o3, rfl⟩ := hseen.2 hpath
      obtain ⟨v, hv, -⟩ := ((hseen.1 i d' o3 rfl).2.2 hpath).2
      simp [castTo, hv, Payload.address?] at hnone
  | removeKey id =>
    rintro hd o ⟨u, hu, hk⟩
    obtain ⟨hcmd, hsig⟩ := howner hd hwr
    exact ⟨{ u with keys := u.keys.erase id }, by simp [Write.apply, Write.payload, Payload.mapAddressState, hu],
      hk.tail (.remove hcmd hsig id _)⟩
  | clearKeys =>
    rintro hd o ⟨u, hu, hk⟩
    obtain ⟨items, hex, h, i, o', hroot, hm, hitems, hmem, hh', hseen, -, -⟩ := hwr
    have hpath : Γ.pathFromHash h = Γ.path (Name.addressState A).text := by
      rw [← (hseen.1 i d o' rfl).1, hd, ← hp]
      rfl
    exact ⟨{ u with keys := ∅ }, by simp [Write.apply, Write.payload, Payload.mapAddressState, hu],
      hk.tail (.gc ⟨c, items, hex, h, hc, hroot, hm, hitems, hmem, hh', hpath⟩ _)⟩
  | _ => exact keeps_of_not_key rfl (by simp) (by simp) (by simp)

/-- Between transactions, the leaf of an address at a pointer, with its key set. -/
def AddressAt (Γ : Ctx) (A : String) (q : CellPtr) (keys : StdMap Nat Key) (s : St) : Prop :=
  Idle s ∧ getDbId q = Γ.path (Name.addressState A).text ∧
    Tracked (fun _ o => ∃ u, o.payload = .addressState u ∧ u.keys = keys) s.store q

variable {q : CellPtr} {keys : StdMap Nat Key} {s : St}

theorem AddressAt.length (h : AddressAt Γ A q keys s) : q.length = 5 := by
  rw [← length_getDbId, h.2.1, Γ.path_length]

theorem AddressAt.keysOf (h : AddressAt Γ A q keys s) : keysOf Γ A s = some keys := by
  obtain ⟨i, g, hl, u, hu, rfl⟩ := h.2.2.look
  rw [h.2.1] at hl
  simp [Grain.keysOf, addressOf, objAt, hl, hu, Payload.address?]

theorem Tracked.mono {V V' : Nat → DataObj → Prop} {st : Store} (h : Tracked V st q) (hV : ∀ g o, V g o → V' g o) :
    Tracked V' st q :=
  ⟨h.path, h.data.imp fun _ hg => ⟨hg.1, hV _ _ hg.2⟩⟩

/-- Between transactions any property that the keys have can be watched. -/
theorem AddressAt.inv (h : AddressAt Γ A q keys s) {K : StdMap Nat Key → Prop} (hK : K keys) :
    (keysWatch q h.length K).Inv s := by
  refine ⟨⟨Tracked.mono h.2.2 ?_, ?_⟩, ?_⟩
  · rintro _ o ⟨u, hu, rfl⟩
    exact ⟨u, hu, hK⟩
  · intro b hb
    simp [h.1.1] at hb
  · simp [h.1.2]

theorem AddressAt.of_inv {hq : q.length = 5} {K : StdMap Nat Key → Prop} (hp : getDbId q = Γ.path (Name.addressState A).text)
    (hi : Idle s) (h : (keysWatch q hq K).Inv s) : ∃ keys, AddressAt Γ A q keys s ∧ K keys := by
  obtain ⟨g, hg, u, hu, hk⟩ := h.store.1.data
  exact ⟨u.keys, ⟨hi, hp, h.store.1.path, g, hg, u, hu, rfl⟩, hk⟩

/-- A linked address can be followed from its pointer. -/
theorem addressAt_of_linked (hi : Idle s) (h : Linked Γ A s) : ∃ q keys, AddressAt Γ A q keys s := by
  obtain ⟨hl, hk⟩ := h
  simp only [Grain.keysOf, addressOf, objAt, Option.isSome_map] at hk
  split at hk
  · rename_i i d o hlook
    simp only [Option.bind_some] at hk
    obtain ⟨u, hu⟩ := Option.isSome_iff_exists.1 hk
    have hpay : o.payload = .addressState u := by
      cases ho : o.payload <;> simp_all [Payload.address?]
    obtain ⟨h1, -, h3⟩ := tracked_of_linked hi.1 hl hlook
      (V := fun _ o => ∃ v, o.payload = .addressState v ∧ v.keys = u.keys) ⟨u, hpay, rfl⟩
    exact ⟨d.parent, u.keys, hi, h1, h3⟩
  · simp at hk

/-- One transaction: the keys change only as it is entitled to. -/
theorem AddressAt.executeBlockTx (h : AddressAt Γ A q keys s) (b : BParams) {tx : TX} (ho : Owned Γ A tx s) :
    ∃ keys', AddressAt Γ A q keys' (runEff Γ (executeBlockTx Γ b tx) s).2 ∧
      Relation.ReflTransGen (KeyStep Γ A tx keys) keys keys' := by
  have hs : (∃ z ∈ keys.toList, z.2.keybuffer = tx.pkEdBin) → SignedBy Γ tx keys := by
    intro hz
    obtain ⟨u, hu, rfl⟩ : ∃ u, addressOf Γ A s = some u ∧ u.keys = keys := by
      simpa [Grain.keysOf] using h.keysOf
    exact ho u hu (by simpa [isOwner] using hz)
  have hkeeps : Prog.Keeps (exec Γ) (keysWatch q h.length (Relation.ReflTransGen (KeyStep Γ A tx keys) keys)).Inv
      (Grain.executeBlockTx Γ b tx) :=
    Watch.keeps_executeBlockTx (fun _ _ hL => hL) (fun d wr hwr => hwr.elim (keeps_txWrite h.length h.2.1 hs) keeps_frameWrite) b
  have hrun := hkeeps s (h.inv .refl)
  exact AddressAt.of_inv h.2.1 (idle_executeBlockTx b tx s h.1) hrun

/-- What the block does around the transactions leaves the keys. -/
theorem AddressAt.frame (h : AddressAt Γ A q keys s) {α : Type} {m : Eff α} (hm : ∀ ev, FitsFrame ev m fun _ => True) :
    AddressAt Γ A q keys (runEff Γ m s).2 := by
  have hrun := (keysWatch q h.length (· = keys)).keeps_frame (Γ := Γ) (hm _) (fun d wr => keeps_frameWrite) s (h.inv rfl)
  obtain ⟨_, h1, rfl⟩ := AddressAt.of_inv h.2.1 (keeps_idle_frame (hm _) s h.1) hrun
  exact h1

/-! ## Blocks -/

theorem AddressAt.afterTxs (h : AddressAt Γ A q keys s) (b : BParams) (newEpoch : Int) {txs : List TX}
    (ho : ∀ pre tx post, txs = pre ++ tx :: post → Owned Γ A tx (afterTxs Γ b newEpoch pre s)) :
    ∃ keys', AddressAt Γ A q keys' (afterTxs Γ b newEpoch txs s) := by
  induction txs using List.reverseRecOn with
  | nil =>
    refine ⟨keys, ?_⟩
    have h1 := h.frame (m := beginBlock Γ newEpoch) fun _ => fitsFrame_beginBlock newEpoch
    simp only [Grain.afterTxs, executeTxs, runEff, run_bind] at h1 ⊢
    rcases hr : run (exec Γ) (beginBlock Γ newEpoch) s with ⟨_ | _, t⟩ <;> rw [hr] at h1 <;> exact h1
  | append_singleton txs tx ih =>
    obtain ⟨keys', h1⟩ := ih fun pre x post he => ho pre x (post ++ [tx]) (by simp [he])
    rcases afterTxs_concat b newEpoch txs tx s with he | he <;> rw [he]
    · obtain ⟨keys2, h2, -⟩ := h1.executeBlockTx b (ho txs tx [] rfl)
      exact ⟨keys2, h2⟩
    · exact ⟨keys', h1⟩

/-- In a block whose transactions carry no public key of an address that they are not signed for, the keys of the address
change only in a transaction that is signed by one of its keys and asks for the change, or by the collection of its leaf: from
each transaction to the next, and not by what the block does before the first and after the last. -/
theorem keys_change_by_owner (b : BParams) (newEpoch : Int) (txs : List TX) (hi : Idle s) (hl : Linked Γ A s)
    (ho : ∀ pre tx post, txs = pre ++ tx :: post → Owned Γ A tx (afterTxs Γ b newEpoch pre s)) :
    keysOf Γ A (afterTxs Γ b newEpoch [] s) = keysOf Γ A s ∧
    (∀ pre tx post, txs = pre ++ tx :: post →
      KeysChange Γ A tx (afterTxs Γ b newEpoch pre s) (afterTxs Γ b newEpoch (pre ++ [tx]) s)) ∧
    keysOf Γ A (runEff Γ (executeBlock Γ b newEpoch txs) s).2 = keysOf Γ A (afterTxs Γ b newEpoch txs s) := by
  obtain ⟨q, keys, h⟩ := addressAt_of_linked hi hl
  refine ⟨?_, fun pre tx post he => ?_, ?_⟩
  · have h1 := h.frame (m := beginBlock Γ newEpoch) fun _ => fitsFrame_beginBlock newEpoch
    have h2 : afterTxs Γ b newEpoch [] s = (runEff Γ (beginBlock Γ newEpoch) s).2 := by
      simp only [afterTxs, executeTxs, runEff, run_bind]
      rcases run (exec Γ) (beginBlock Γ newEpoch) s with ⟨_ | _, t⟩ <;> rfl
    rw [h2, h1.keysOf, h.keysOf]
  · obtain ⟨keys1, h1⟩ := h.afterTxs b newEpoch fun pre' tx' post' (he' : pre = _) =>
      ho pre' tx' (post' ++ tx :: post) (by simp [he, he'])
    rcases afterTxs_concat b newEpoch pre tx s with he' | he' <;> rw [he']
    · obtain ⟨keys2, h2, hstep⟩ := h1.executeBlockTx b (ho pre tx post he)
      exact ⟨keys1, keys2, h1.keysOf, h2.keysOf, hstep⟩
    · exact ⟨keys1, keys1, h1.keysOf, h1.keysOf, .refl⟩
  · obtain ⟨keys1, h1⟩ := h.afterTxs b newEpoch ho
    have h2 := h1.frame (m := endBlock Γ b) fun _ => fitsFrame_endBlock b
    rw [h1.keysOf]
    simp only [executeBlock, afterTxs, runEff, run_bind] at h1 h2 ⊢
    rcases hr : run (exec Γ) (beginBlock Γ newEpoch) s with ⟨_ | _, t⟩ <;> simp only [hr] at h1 h2 ⊢
    · exact h1.keysOf
    · rcases hr' : run (exec Γ) (executeTxs Γ b txs) t with ⟨_ | _, u⟩ <;> simp only [hr'] at h1 h2 ⊢
      · exact h1.keysOf
      · exact h2.keysOf

/-! ## The small network -/

namespace Sample

/-- The removal of the first key of the first user, asked for by a sender. -/
def removal (sender : String) : Ctx :=
  ctx [("remove", body sender 0 0 10 [command "remove_address_key" [("addr", .str "61"), ("key_id", .uint 0)]])] fun _ => none

/-- The removal with a public key, signed by a key. -/
def removalTx (pk signer : Char) : TX := { txBody := "remove", pkEdBin := key pk, sigEdBin := sign signer }

/-- The state before the removal. -/
def removalState (sender : String) : St := genesis (removal sender) file

end Sample

open Sample

/-- A change of keys is none unless the transaction is signed by one of them or collects the leaf. -/
theorem KeysChange.same_or {tx : TX} {s t : St} (h : KeysChange Γ A tx s t) :
    keysOf Γ A t = keysOf Γ A s ∨ (∃ keys, keysOf Γ A s = some keys ∧ SignedBy Γ tx keys) ∨ HasGcAddress Γ A tx := by
  obtain ⟨keys, keys', h1, h2, hsteps⟩ := h
  rcases Relation.ReflTransGen.cases_head hsteps with rfl | ⟨m, hstep, -⟩
  · exact .inl (h2.trans h1.symm)
  · cases hstep with
    | add _ hs => exact .inr (.inl ⟨keys, h1, hs⟩)
    | remove _ hs => exact .inr (.inl ⟨keys, h1, hs⟩)
    | gc hc => exact .inr (.inr hc)

/-- The second user takes a key from the first: the transaction is signed with the second user's own key and carries the first
user's public key. -/
theorem keys_change_by_owner_false :
    ¬ KeysChange (removal "b") "a" (removalTx 'k' 'l') (afterTxs (removal "b") params 1 [] (removalState "b"))
      (afterTxs (removal "b") params 1 [removalTx 'k' 'l'] (removalState "b")) := by
  intro h
  rcases h.same_or with hsame | ⟨keys, hkeys, id, k, hk, hv⟩ | ⟨c, _, _, _, ⟨root, items, item, hroot, hitems, hitem, hc⟩, -, hm, -⟩
  · have h2 : (keysOf (removal "b") "a" (afterTxs (removal "b") params 1 [] (removalState "b"))).map (·.size) = some 2 := by
      decide +kernel
    have h1 : (keysOf (removal "b") "a" (afterTxs (removal "b") params 1 [removalTx 'k' 'l'] (removalState "b"))).map (·.size) =
        some 1 := by
      decide +kernel
    rw [hsame, h2] at h1
    simp at h1
  · have hall : (keysOf (removal "b") "a" (afterTxs (removal "b") params 1 [] (removalState "b"))).all (fun m =>
        m.toList.all fun z => !decide (verify (removal "b") z.2 (removalTx 'k' 'l').sigEdBin (removalTx 'k' 'l').getHash = .ok true)) =
        true := by
      decide +kernel
    rw [hkeys, Option.all_some, List.all_eq_true] at hall
    have := hall (id, k) (Std.ExtTreeMap.mem_toList_iff_getElem?_eq_some.2 hk)
    simp [hv] at this
  · obtain rfl : body "b" 0 0 10 [command "remove_address_key" [("addr", .str "61"), ("key_id", .uint 0)]] = root := by
      simpa [removal, removalTx, ctx] using hroot
    obtain rfl : [command "remove_address_key" [("addr", .str "61"), ("key_id", .uint 0)]] = items := by
      simpa [body, Json.objGet, Json.elems?] using hitems
    obtain rfl := List.mem_singleton.1 hitem
    obtain rfl := Except.ok.inj hc
    exact absurd hm (by decide +kernel)

/-- The first user removes a key of its own. -/
theorem keys_change_by_owner_removal :
    KeysChange (removal "a") "a" (removalTx 'm' 'k') (afterTxs (removal "a") params 1 [] (removalState "a"))
      (afterTxs (removal "a") params 1 [removalTx 'm' 'k'] (removalState "a")) := by
  refine (keys_change_by_owner (Γ := removal "a") (A := "a") (s := removalState "a") params 1 [removalTx 'm' 'k'] ?_ ?_ ?_).2.1 []
    _ [] rfl
  · exact ⟨by decide +kernel, by decide +kernel⟩
  · exact ⟨by decide +kernel, by decide +kernel⟩
  · intro pre tx post he u hu _
    obtain ⟨rfl, rfl, rfl⟩ : pre = [] ∧ tx = removalTx 'm' 'k' ∧ post = [] := by
      rcases List.append_eq_singleton_iff.1 he.symm with ⟨rfl, h⟩ | ⟨-, h⟩
      · simpa using h
      · simp at h
    have hkey : (addressOf (removal "a") "a" (afterTxs (removal "a") params 1 [] (removalState "a"))).map (·.keys[0]?) =
        some (some ⟨0, 0, key 'k'⟩) := by
      decide +kernel
    rw [hu] at hkey
    exact ⟨0, ⟨0, 0, key 'k'⟩, by simpa using hkey, by decide +kernel⟩

end Grain
