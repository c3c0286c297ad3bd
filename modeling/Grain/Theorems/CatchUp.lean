import Grain.CatchUp
import Grain.Theorems.Sync

/-!
# Catching up ends with the tree of the block

The other nodes hold the tree of the last block, whose root hash is known. Whatever is requested, answered and read, and in whatever
order, a node that catches up stores no granule but those of that tree beside what it had (`fetch_sound`); a granule of the tree
that is in place stays. Each exchange of a request and its answer brings at least one granule of the tree into place, so from any
state a new heartbeat and as many exchanges as the tree has granules, with one more for the root, bring in all of it
(`fetch_completes`).
-/

namespace Grain

/-! ## The tree of a root hash -/

/-- A database with the whole tree of a root hash. -/
structure PeerTree (Γ : SyncCtx) (db : StdMap Bytes Bytes) (root : Bytes) : Prop where
  complete : Complete Γ db root
  shape : ∀ k b : Bytes, Authentic Γ db root k → db[k]? = some b → CellShape Γ k b

section Tree

variable {Γ : SyncCtx} {db D : StdMap Bytes Bytes} {root k : Bytes}

/-- The root hash determines the tree: a cell that one database has by the chain of hashes, every database with the whole tree has.
-/
theorem Authentic.agree (hD : Complete Γ D root) (h : Authentic Γ db root k) : Authentic Γ D root k ∧ D[k]? = db[k]? := by
  have hsame : ∀ {x hx : Bytes}, Holds Γ D x hx → Holds Γ db x hx → D[x]? = db[x]? := by
    rintro x hx ⟨b, hb, hh⟩ ⟨b', hb', hh'⟩
    rw [hb, hb', Γ.blake2bHash_inj (hh.trans hh'.symm)]
  induction h with
  | top htop => exact ⟨.top hD.top, hsame hD.top htop⟩
  | child hk hb hcs hid hold ih =>
    have hb' := ih.2.trans hb
    have hold' := hD.child _ _ _ _ _ ih.1 hb' hcs hid
    exact ⟨.child ih.1 hb' hcs hid hold', hsame hold' hold⟩

theorem Authentic.stored (h : Authentic Γ db root k) : ∃ b, db[k]? = some b := by
  cases h with
  | top htop =>
    obtain ⟨b, hb, -⟩ := htop
    exact ⟨b, hb⟩
  | child _ _ _ _ hold =>
    obtain ⟨b, hb, -⟩ := hold
    exact ⟨b, hb⟩

theorem Authentic.isSome (hD : PeerTree Γ D root) (h : Authentic Γ D root k) : (Grain.splice k).isSome = true := by
  induction h with
  | top _ => rfl
  | child hk hb hcs hid _ _ =>
    rw [((hD.shape _ _ hk hb).child hcs hid).1]
    rfl

/-- The key is that of the root, or of a child of a cell of the tree that is in place. -/
def Due (Γ : SyncCtx) (D : StdMap Bytes Bytes) (root : Bytes) (db : StdMap Bytes Bytes) (k : Bytes) : Prop :=
  k = [] ∨ ∃ (p id b h : Bytes) (cs : StdMap Bytes Bytes), k = p ++ id ∧ Authentic Γ D root p ∧ D[p]? = some b ∧
    db[p]? = some b ∧ Γ.childrenHashes b = some cs ∧ cs[id]? = some h

theorem Due.authentic (hD : PeerTree Γ D root) (h : Due Γ D root db k) : Authentic Γ D root k := by
  rcases h with rfl | ⟨p, id, b, h, cs, rfl, hp, hb, -, hcs, hid⟩
  · exact .top hD.complete.top
  · exact .child hp hb hcs hid (hD.complete.child _ _ _ _ _ hp hb hcs hid)

/-- What of the tree is in place is in place in the other database too. -/
def InPlace (Γ : SyncCtx) (D : StdMap Bytes Bytes) (root : Bytes) (db db' : StdMap Bytes Bytes) : Prop :=
  ∀ x, Authentic Γ D root x → db[x]? = D[x]? → db'[x]? = D[x]?

theorem Due.mono {db' : StdMap Bytes Bytes} (h : InPlace Γ D root db db') (hk : Due Γ D root db k) : Due Γ D root db' k := by
  rcases hk with hk | ⟨p, id, b, hh, cs, hk, hp, hb, hpb, hcs, hid⟩
  · exact .inl hk
  · exact .inr ⟨p, id, b, hh, cs, hk, hp, hb, (h p hp (hpb.trans hb.symm)).trans hb, hcs, hid⟩

/-- How many of the granules are not in place. -/
def behind (D db : StdMap Bytes Bytes) : Nat := D.toList.countP fun z => db[z.1]? ≠ some z.2

theorem behind_le (D db : StdMap Bytes Bytes) : behind D db ≤ D.size := by
  rw [← Std.ExtTreeMap.length_toList]
  exact List.countP_le_length

/-- What counts as in place goes on to do so. -/
theorem behind_mono {db' : StdMap Bytes Bytes} (h : ∀ x b : Bytes, D[x]? = some b → db[x]? = some b → db'[x]? = some b) :
    behind D db' ≤ behind D db := by
  refine List.countP_mono_left fun z hz hz' => ?_
  have hzD := Std.ExtTreeMap.mem_toList_iff_getElem?_eq_some.1 hz
  simp only [decide_eq_true_eq] at hz' ⊢
  exact fun hdb => hz' (h z.1 z.2 hzD hdb)

/-- One granule more is in place. -/
theorem behind_lt {db' : StdMap Bytes Bytes} {b : Bytes} (h : ∀ x b : Bytes, D[x]? = some b → db[x]? = some b → db'[x]? = some b)
    (hk : D[k]? = some b) (hold : db[k]? ≠ some b) (hnew : db'[k]? = some b) : behind D db' < behind D db := by
  obtain ⟨l₁, l₂, hl⟩ := List.append_of_mem (Std.ExtTreeMap.mem_toList_iff_getElem?_eq_some.2 hk)
  have hle : ∀ l : List (Bytes × Bytes), (∀ z ∈ l, z ∈ D.toList) →
      l.countP (fun z => db'[z.1]? ≠ some z.2) ≤ l.countP (fun z => db[z.1]? ≠ some z.2) := by
    intro l hl
    refine List.countP_mono_left fun z hz hz' => ?_
    have hzD := Std.ExtTreeMap.mem_toList_iff_getElem?_eq_some.1 (hl z hz)
    simp only [decide_eq_true_eq] at hz' ⊢
    exact fun hdb => hz' (h z.1 z.2 hzD hdb)
  have h₁ := hle l₁ fun z hz => by
    rw [hl]
    exact List.mem_append_left _ hz
  have h₂ := hle l₂ fun z hz => by
    rw [hl]
    exact List.mem_append_right _ (List.mem_cons_of_mem _ hz)
  unfold behind
  rw [hl, List.countP_append, List.countP_append, List.countP_cons_of_neg (by simpa using hnew),
    List.countP_cons_of_pos (by simpa using hold)]
  omega

end Tree

/-! ## An answer -/

section Served

variable {Γ : SyncCtx} {D : StdMap Bytes Bytes} {root : Bytes} {s : SyncSt} {v : List (Bytes × Bytes)}

/-- The granules are those of the tree for keys that are due. -/
def Served (Γ : SyncCtx) (D : StdMap Bytes Bytes) (root : Bytes) (db : StdMap Bytes Bytes) (v : List (Bytes × Bytes)) : Prop :=
  ∀ z ∈ v, Due Γ D root db z.1 ∧ D[z.1]? = some z.2

theorem Served.mono {db db' : StdMap Bytes Bytes} (h : InPlace Γ D root db db') (hv : Served Γ D root db v) :
    Served Γ D root db' v :=
  fun z hz => ⟨(hv z hz).1.mono h, (hv z hz).2⟩

theorem Served.write (hv : Served Γ D root s.db v) (k : Bytes) :
    (s.write v).db[k]? = if k ∈ v.map (·.1) then D[k]? else s.db[k]? := by
  rw [write_getElem?]
  split
  · next hmem =>
    obtain ⟨z, hz, rfl⟩ := List.mem_map.1 hmem
    obtain ⟨b, hb⟩ := batch_of_mem hz
    have hD := (hv _ (mem_of_batch hb)).2
    rw [hb, hD]
    rfl
  · next hmem =>
    cases hx : (batch v)[k]? with
    | none => rfl
    | some x => exact absurd (List.mem_map.2 ⟨_, mem_of_batch hx, rfl⟩) hmem

theorem Served.inPlace (hv : Served Γ D root s.db v) : InPlace Γ D root s.db (s.write v).db := by
  intro x _ hx
  rw [hv.write]
  split
  · rfl
  · exact hx

theorem Served.unpacks (hD : PeerTree Γ D root) (hv : Served Γ D root s.db v) {z : Bytes × Bytes} (hz : z ∈ v) :
    (Γ.childrenHashes z.2).isSome = true := by
  obtain ⟨hdue, hb⟩ := hv z hz
  obtain ⟨cs, hcs, -⟩ := hD.shape _ _ (hdue.authentic hD) hb
  rw [hcs]
  rfl

/-- A granule of the tree has the hash that its parent records. -/
theorem Served.checkGranule (hD : PeerTree Γ D root) (hv : Served Γ D root s.db v) {z : Bytes × Bytes} (hz : z ∈ v) :
    s.checkGranule Γ z = true := by
  obtain ⟨hdue, hzb⟩ := hv z hz
  rcases hdue with hnil | ⟨p, id, b, h, cs, hk, hp, hb, hpb, hcs, hid⟩
  · unfold SyncSt.checkGranule
    rw [if_pos hnil]
  obtain ⟨hsp, hne, -⟩ := (hD.shape p b hp hb).child hcs hid
  obtain ⟨y, hy, hh⟩ := hD.complete.child p b id h cs hp hb hcs hid
  rw [← hk, hzb] at hy
  obtain rfl := Option.some.inj hy
  have hget : s.getGranule p = b := by
    unfold SyncSt.getGranule
    rw [hpb]
    rfl
  have hkne : z.1 ≠ [] := by
    rw [hk]
    exact fun h => hne (List.append_eq_nil_iff.1 h).2
  unfold SyncSt.checkGranule
  rw [if_neg hkne, hk, hsp]
  simp only [hget, hcs, hid, hh, decide_true, ite_self]

theorem Served.accepts (hD : PeerTree Γ D root) (hv : Served Γ D root s.db v) (known : Bool) :
    s.accepts Γ { v := v, responderKnown := known } = true := by
  refine Bool.and_eq_true_iff.2 ⟨List.all_eq_true.2 fun z hz => hv.checkGranule hD hz, List.all_eq_true.2 fun z hz => ?_⟩
  have hz' : z ∈ v := mem_of_batch (Std.ExtTreeMap.mem_toList_iff_getElem?_eq_some.1 hz)
  rw [hv.unpacks hD hz', Bool.or_true]

/-- The root can be opened: if it has the hash of the block, it is the root of the tree. -/
theorem rootRaises_eq_false (hD : PeerTree Γ D root) (hroot : s.newRootHash1 = root) : s.rootRaises Γ = false := by
  unfold SyncSt.rootRaises
  by_cases hh : Γ.blake2bHash (s.getGranule []) = s.newRootHash1
  · obtain ⟨b, hb, hbh⟩ := hD.complete.top
    obtain ⟨cs, hcs, -⟩ := hD.shape [] b (.top hD.complete.top) hb
    have heq : s.getGranule [] = b := Γ.blake2bHash_inj (by rw [hh, hroot, hbh])
    rw [heq, hcs]
    simp
  · simp [hh]

end Served

/-! ## Whether anything is outstanding -/

section Flag

variable {Γ : SyncCtx} {s t : SyncSt}

/-- `sync_empty` says whether no key is outstanding. -/
def SyncSt.Flagged (s : SyncSt) : Prop := s.syncEmpty = s.syncOut.isEmpty

theorem removeSyncOut_flagged {k : Bytes} (hs : s.Flagged) (h : s.removeSyncOut Γ k = .ok t) : t.Flagged := by
  unfold SyncSt.removeSyncOut at h
  dsimp only at h
  split at h
  · next hc =>
    split at h
    · cases h
    · cases h
      exact hc.1.symm
  · next hc =>
    cases h
    unfold SyncSt.Flagged at hs ⊢
    dsimp only
    cases he : (s.syncOut.erase k).isEmpty with
    | true =>
      rw [he] at hc
      simpa using hc
    | false =>
      rw [hs]
      by_contra hne
      have hempty : s.syncOut.isEmpty = true := by simpa using hne
      rw [Std.ExtTreeSet.isEmpty_iff] at hempty
      rw [hempty] at he
      simp at he

theorem removeAll_flagged {v : List (Bytes × Bytes)} (hs : s.Flagged) (h : SyncSt.removeAll Γ v s = .ok t) : t.Flagged := by
  induction v generalizing s with
  | nil =>
    cases h
    exact hs
  | cons z v ih =>
    unfold SyncSt.removeAll at h
    cases hz : s.removeSyncOut Γ z.1 with
    | error e =>
      rw [hz] at h
      cases h
    | ok s' =>
      rw [hz] at h
      exact ih (removeSyncOut_flagged hs hz) h

theorem addSyncOut_flagged (s : SyncSt) (k : Bytes) : (s.addSyncOut k).Flagged := by
  simp [SyncSt.Flagged, SyncSt.addSyncOut]

theorem collectChildren_flagged (k : Bytes) (cs : List (Bytes × Bytes)) (hs : s.Flagged) :
    (SyncSt.collectChildren Γ k cs s).Flagged := by
  induction cs generalizing s with
  | nil => exact hs
  | cons c cs ih =>
    unfold SyncSt.collectChildren
    split
    · exact ih (addSyncOut_flagged _ _)
    · exact ih hs

theorem collectAll_flagged {v : List (Bytes × Bytes)} (hs : s.Flagged) (h : SyncSt.collectAll Γ v s = .ok t) : t.Flagged := by
  induction v generalizing s with
  | nil =>
    cases h
    exact hs
  | cons z v ih =>
    unfold SyncSt.collectAll SyncSt.collectSyncReq2 at h
    cases hz : Γ.childrenHashes z.2 with
    | none =>
      rw [hz] at h
      cases h
    | some cs =>
      rw [hz] at h
      exact ih (collectChildren_flagged z.1 cs.toList hs) h

end Flag

/-- An answer that is written, where the root and the granules unpack: the loops go through, and where they end. -/
theorem getGranulesRSP_ok {Γ : SyncCtx} {s : SyncSt} {m : GetGranulesRSP} (ha : s.accepts Γ m = true)
    (hr : (s.write m.v).rootRaises Γ = false) (hv : ∀ z ∈ m.v, (Γ.childrenHashes z.2).isSome = true) :
    ∃ t, s.getGranulesRSP Γ m = .ok t ∧ t.db = (s.write m.v).db ∧ t.newRootHash1 = s.newRootHash1 ∧ (s.Flagged → t.Flagged) ∧
      ∀ x, x ∈ t.syncOut ↔ (x ∈ s.syncOut ∧ x ∉ m.v.map (·.1)) ∨
        ∃ z ∈ m.v, ∃ (cs : StdMap Bytes Bytes) (id h : Bytes), Γ.childrenHashes z.2 = some cs ∧ cs[id]? = some h ∧
          x = z.1 ++ id ∧ Γ.blake2bHash ((s.write m.v).getGranule x) ≠ h := by
  obtain ⟨t₁, h₁, hsame₁, hout₁, -⟩ := removeAll_ok hr m.v
  obtain ⟨t₂, h₂, hsame₂, -, hout₂⟩ := collectAll_ok (s := t₁) m.v hv
  have hrsp : s.getGranulesRSP Γ m = .ok (if t₂.getPathes ≠ [] ∧ m.responderKnown then t₂.request else t₂) := by
    unfold SyncSt.getGranulesRSP
    rw [if_pos ha, h₁]
    change (SyncSt.collectAll Γ m.v t₁ >>= _) = _
    rw [h₂]
    rfl
  have hget : ∀ x, t₁.getGranule x = (s.write m.v).getGranule x := by
    intro x
    unfold SyncSt.getGranule
    rw [hsame₁.db]
  have hflag : s.Flagged → t₂.Flagged := fun hs => collectAll_flagged (removeAll_flagged (s := s.write m.v) hs h₁) h₂
  refine ⟨_, hrsp, ?_⟩
  have hout : ∀ x, x ∈ t₂.syncOut ↔ (x ∈ s.syncOut ∧ x ∉ m.v.map (·.1)) ∨
      ∃ z ∈ m.v, ∃ (cs : StdMap Bytes Bytes) (id h : Bytes), Γ.childrenHashes z.2 = some cs ∧ cs[id]? = some h ∧
        x = z.1 ++ id ∧ Γ.blake2bHash ((s.write m.v).getGranule x) ≠ h := by
    intro x
    rw [hout₂, hout₁]
    simp only [hget]
    rfl
  have hdb : t₂.db = (s.write m.v).db := hsame₂.db.trans hsame₁.db
  have hroot : t₂.newRootHash1 = s.newRootHash1 := hsame₂.root.trans hsame₁.root
  split <;> exact ⟨hdb, hroot, hflag, hout⟩

/-! ## What holds while the node catches up -/

section Invariant

variable {Γ : SyncCtx} {D had : StdMap Bytes Bytes} {root : Bytes} {s : SyncSt}

/-- What is stored was there before or is of the tree; an outstanding key is due, and its granule is not in place unless it is the
root's; each child of a cell in place is in place too or is outstanding. -/
structure FetchInv (Γ : SyncCtx) (D had : StdMap Bytes Bytes) (root : Bytes) (s : SyncSt) : Prop where
  block : s.newRootHash1 = root
  stored : ∀ k b : Bytes, s.db[k]? = some b → had[k]? = some b ∨ Authentic Γ D root k ∧ D[k]? = some b
  due : ∀ k ∈ s.syncOut, Due Γ D root s.db k ∧ (k = [] ∨ s.db[k]? ≠ D[k]?)
  closed : ∀ (k b id h : Bytes) (cs : StdMap Bytes Bytes), Authentic Γ D root k → D[k]? = some b → s.db[k]? = some b →
    Γ.childrenHashes b = some cs → cs[id]? = some h → s.db[k ++ id]? = D[k ++ id]? ∨ k ++ id ∈ s.syncOut
  top : [] ∈ s.syncOut ∨ s.db[([] : Bytes)]? = D[([] : Bytes)]?
  flag : s.Flagged

/-- With nothing outstanding the whole tree is in place. -/
theorem FetchInv.done (hs : FetchInv Γ D had root s) (hout : ∀ x, x ∉ s.syncOut) {k : Bytes} (h : Authentic Γ D root k) :
    s.db[k]? = D[k]? := by
  induction h with
  | top _ => exact hs.top.resolve_left (hout [])
  | child hk hb hcs hid _ ih => exact (hs.closed _ _ _ _ _ hk hb (ih.trans hb) hcs hid).resolve_right (hout _)

/-- A child has the recorded hash exactly when it is in place. -/
theorem hash_eq_iff (hD : PeerTree Γ D root) {k b id h : Bytes} {cs : StdMap Bytes Bytes} (hk : Authentic Γ D root k)
    (hb : D[k]? = some b) (hcs : Γ.childrenHashes b = some cs) (hid : cs[id]? = some h) :
    Γ.blake2bHash (s.getGranule (k ++ id)) = h ↔ s.db[k ++ id]? = D[k ++ id]? := by
  obtain ⟨y, hy, hh⟩ := hD.complete.child k b id h cs hk hb hcs hid
  obtain ⟨-, -, hne⟩ := (hD.shape k b hk hb).child hcs hid
  constructor
  · intro hg
    have heq : s.getGranule (k ++ id) = y := Γ.blake2bHash_inj (hg.trans hh.symm)
    have hyne : s.getGranule (k ++ id) ≠ [] := by
      rintro hnil
      rw [hnil] at hg
      exact hne hg.symm
    rw [getGranule_eq hyne, heq, hy]
  · intro heq
    unfold SyncSt.getGranule
    rw [heq, hy]
    exact hh

/-- An answer goes through; what is outstanding afterwards was outstanding and not answered, or is not in place. -/
theorem FetchInv.served (hD : PeerTree Γ D root) (hs : FetchInv Γ D had root s) {v : List (Bytes × Bytes)}
    (hv : Served Γ D root s.db v) (known : Bool) :
    ∃ t, s.getGranulesRSP Γ { v := v, responderKnown := known } = .ok t ∧ FetchInv Γ D had root t ∧ t.db = (s.write v).db ∧
      ∀ x ∈ t.syncOut, (x ∈ s.syncOut ∧ x ∉ v.map (·.1)) ∨ x ≠ [] ∧ t.db[x]? ≠ D[x]? := by
  obtain ⟨t, ht, hdb, hroot, hflag, hout⟩ := getGranulesRSP_ok (hv.accepts hD known) (rootRaises_eq_false hD hs.block)
    fun z hz => hv.unpacks hD hz
  have hmem : ∀ z ∈ v, z.1 ∈ v.map (·.1) := fun z hz => List.mem_map.2 ⟨z, hz, rfl⟩
  refine ⟨t, ht, ⟨hroot.trans hs.block, ?_, ?_, ?_, ?_, hflag hs.flag⟩, hdb, ?_⟩
  · intro k b hb
    rw [hdb, hv.write] at hb
    split at hb
    · next hk =>
      obtain ⟨z, hz, rfl⟩ := List.mem_map.1 hk
      exact .inr ⟨(hv z hz).1.authentic hD, hb⟩
    · exact hs.stored k b hb
  · intro k hk
    rw [hdb]
    rcases (hout k).1 hk with ⟨hk, hnot⟩ | ⟨z, hz, cs, id, h, hcs, hid, rfl, hmiss⟩
    · obtain ⟨h₁, h₂⟩ := hs.due k hk
      rw [hv.write, if_neg hnot]
      exact ⟨h₁.mono hv.inPlace, h₂⟩
    · have hz₁ := (hv z hz).1.authentic hD
      have hz₂ : (s.write v).db[z.1]? = some z.2 := by
        rw [hv.write, if_pos (hmem z hz), (hv z hz).2]
      exact ⟨.inr ⟨z.1, id, z.2, h, cs, rfl, hz₁, (hv z hz).2, hz₂, hcs, hid⟩,
        .inr fun heq => hmiss ((hash_eq_iff hD hz₁ (hv z hz).2 hcs hid).2 heq)⟩
  · intro k b id h cs hk hb hsb hcs hid
    rw [hdb] at hsb ⊢
    by_cases hkv : k ∈ v.map (·.1)
    · obtain ⟨z, hz, rfl⟩ := List.mem_map.1 hkv
      obtain rfl : z.2 = b := Option.some.inj ((hv z hz).2.symm.trans hb)
      by_cases hh : Γ.blake2bHash ((s.write v).getGranule (z.1 ++ id)) = h
      · exact .inl ((hash_eq_iff hD hk hb hcs hid).1 hh)
      · exact .inr ((hout _).2 (.inr ⟨z, hz, cs, id, h, hcs, hid, rfl, hh⟩))
    · rw [hv.write, if_neg hkv] at hsb
      rcases hs.closed k b id h cs hk hb hsb hcs hid with heq | ho
      · exact .inl (hv.inPlace _ (.child hk hb hcs hid (hD.complete.child k b id h cs hk hb hcs hid)) heq)
      · by_cases hxv : k ++ id ∈ v.map (·.1)
        · left
          rw [hv.write, if_pos hxv]
        · exact .inr ((hout _).2 (.inl ⟨ho, hxv⟩))
  · rcases hs.top with ho | heq
    · by_cases hnil : ([] : Bytes) ∈ v.map (·.1)
      · right
        rw [hdb, hv.write, if_pos hnil]
      · exact .inl ((hout _).2 (.inl ⟨ho, hnil⟩))
    · right
      rw [hdb]
      exact hv.inPlace [] (.top hD.complete.top) heq
  · intro x hx
    rcases (hout x).1 hx with hold | ⟨z, hz, cs, id, h, hcs, hid, rfl, hmiss⟩
    · exact .inl hold
    · have hz₁ := (hv z hz).1.authentic hD
      have hne := ((hD.shape _ _ hz₁ (hv z hz).2).child hcs hid).2.1
      refine .inr ⟨fun hnil => hne (List.append_eq_nil_iff.1 hnil).2, fun heq => hmiss ?_⟩
      rw [hdb] at heq
      exact (hash_eq_iff hD hz₁ (hv z hz).2 hcs hid).2 heq

end Invariant

/-! ## Requests -/

section Requests

variable {s : SyncSt}

theorem mem_of_getPathes {k : Bytes} (h : k ∈ s.getPathes) : k ∈ s.syncOut := by
  unfold SyncSt.getPathes at h
  split at h
  · cases h
  · have hk := List.mem_of_mem_take h
    exact Std.ExtTreeSet.mem_toList.1 (List.mem_filter.1 hk).1

/-- While a key is outstanding there is one to ask for. -/
theorem getPathes_ne_nil {k : Bytes} (h : k ∈ s.syncOut) : s.getPathes ≠ [] := by
  have hk := Std.ExtTreeSet.mem_toList.2 h
  unfold SyncSt.getPathes
  split
  · next hmin =>
    rw [List.min?_eq_none_iff, List.map_eq_nil_iff] at hmin
    rw [hmin] at hk
    cases hk
  · next n hmin =>
    obtain ⟨x, hx, hlen⟩ := List.mem_map.1 (List.min?_mem hmin)
    have hf : x ∈ s.syncOut.toList.filter fun k => k.length = n := List.mem_filter.2 ⟨hx, by simpa using hlen⟩
    intro hnil
    rw [List.take_eq_nil_iff] at hnil
    rcases hnil with hn | hnil
    · cases hn
    · rw [hnil] at hf
      cases hf

variable {db : StdMap Bytes Bytes} {keys : List Bytes} {v : List (Bytes × Bytes)}

/-- An answer has the granule of each key. -/
theorem getGranulesREQ_some (h : getGranulesREQ db keys = some v) : v.map (·.1) = keys ∧ ∀ z ∈ v, db[z.1]? = some z.2 := by
  unfold getGranulesREQ at h
  split at h
  · cases h
  · induction keys generalizing v with
    | nil =>
      cases h
      exact ⟨rfl, fun z hz => by cases hz⟩
    | cons k keys ih =>
      rw [List.mapM_cons] at h
      cases hk : db[k]? with
      | none =>
        rw [hk] at h
        cases h
      | some b =>
        rw [hk] at h
        cases hrest : keys.mapM fun z => db[z]?.map fun rg => (z, rg) with
        | none =>
          rw [hrest] at h
          cases h
        | some w =>
          rw [hrest] at h
          cases h
          obtain ⟨h₁, h₂⟩ := ih hrest
          refine ⟨by rw [List.map_cons, h₁], fun z hz => ?_⟩
          rcases List.mem_cons.1 hz with rfl | hz
          · exact hk
          · exact h₂ z hz

theorem getGranulesREQ_isSome (hroot : ∃ b, db[([] : Bytes)]? = some b) (h : ∀ k ∈ keys, ∃ b, db[k]? = some b) :
    ∃ v, getGranulesREQ db keys = some v := by
  obtain ⟨r, hr⟩ := hroot
  unfold getGranulesREQ
  rw [hr]
  dsimp only
  induction keys with
  | nil => exact ⟨[], rfl⟩
  | cons k keys ih =>
    obtain ⟨b, hb⟩ := h k List.mem_cons_self
    obtain ⟨w, hw⟩ := ih fun x hx => h x (List.mem_cons_of_mem k hx)
    rw [List.mapM_cons, hb, hw]
    exact ⟨_, rfl⟩

end Requests

/-! ## Runs -/

namespace Fetch

section Runs

variable {ι : Type} {Γ : SyncCtx} {peers : ι → StdMap Bytes Bytes} {D had : StdMap Bytes Bytes} {root : Bytes} {n : Fetch}

/-- What the network has been sent is in order too. -/
structure Ok (Γ : SyncCtx) (D had : StdMap Bytes Bytes) (root : Bytes) (n : Fetch) : Prop where
  inv : FetchInv Γ D had root n.node
  requests : ∀ keys ∈ n.requests, ∀ k ∈ keys, Due Γ D root n.node.db k
  answers : ∀ v ∈ n.answers, Served Γ D root n.node.db v

theorem Ok.getPathes (hn : Ok Γ D had root n) {k : Bytes} (hk : k ∈ n.node.getPathes) : Due Γ D root n.node.db k :=
  (hn.inv.due k (mem_of_getPathes hk)).1

theorem Ok.continueSync (hn : Ok Γ D had root n) : Ok Γ D had root n.continueSync := by
  refine ⟨⟨hn.inv.block, hn.inv.stored, hn.inv.due, hn.inv.closed, hn.inv.top, hn.inv.flag⟩, fun keys hkeys => ?_, hn.answers⟩
  rcases List.mem_append.1 hkeys with hold | hnew
  · exact hn.requests keys hold
  · obtain rfl := List.mem_singleton.1 hnew
    exact fun k hk => hn.getPathes hk

theorem mem_addSyncOut {s : SyncSt} {k x : Bytes} : x ∈ (s.addSyncOut k).syncOut ↔ x = k ∨ x ∈ s.syncOut := by
  unfold SyncSt.addSyncOut
  rw [Std.ExtTreeSet.mem_insert, Std.LawfulEqCmp.compare_eq_iff_eq]
  exact or_congr_left eq_comm

theorem doSync_ok (h : Ok Γ D had root { n with node := { n.node with newRootHash1 := root }.addSyncOut [] }) (known : Bool) :
    Ok Γ D had root (n.doSync root known) := by
  unfold Fetch.doSync
  cases known with
  | true => exact h.continueSync
  | false => exact h

theorem Ok.doSync (hn : Ok Γ D had root n) (known : Bool) : Ok Γ D had root (n.doSync root known) := by
  refine doSync_ok ⟨⟨rfl, hn.inv.stored, fun k hk => ?_, fun k b id h cs hk hb hsb hcs hid => ?_,
    .inl (mem_addSyncOut.2 (.inl rfl)), addSyncOut_flagged _ _⟩, hn.requests, hn.answers⟩ known
  · rcases mem_addSyncOut.1 hk with rfl | hk
    · exact ⟨.inl rfl, .inl rfl⟩
    · exact hn.inv.due k hk
  · exact (hn.inv.closed k b id h cs hk hb hsb hcs hid).imp_right fun ho => mem_addSyncOut.2 (.inr ho)

/-- A node with a whole tree of its own begins. -/
theorem start_ok (hD : PeerTree Γ D root) {s : SyncSt} (hs : Whole Γ s) (known : Bool) :
    Ok Γ D s.db root (({ node := s } : Fetch).doSync root known) := by
  have hnone : ∀ x, x ∉ s.syncOut := by
    intro x hx
    rw [hs.none] at hx
    simp at hx
  refine doSync_ok (n := { node := s }) ⟨⟨rfl, fun k b hb => .inl hb, fun k hk => ?_, fun k b id h cs hk hb hsb hcs hid => ?_,
    .inl (mem_addSyncOut.2 (.inl rfl)), addSyncOut_flagged _ _⟩, List.forall_mem_nil _, List.forall_mem_nil _⟩ known
  · rcases mem_addSyncOut.1 hk with rfl | hk
    · exact ⟨.inl rfl, .inl rfl⟩
    · exact absurd hk (hnone k)
  · -- the child that the node had is the one of the tree
    obtain ⟨y, hy, hh⟩ := hs.closed k b id h cs hsb (hk.isSome hD) hcs hid
    obtain ⟨z, hz, hzh⟩ := hD.complete.child k b id h cs hk hb hcs hid
    obtain rfl := Γ.blake2bHash_inj (hh.trans hzh.symm)
    exact .inl (hy.trans hz.symm)

/-- What a peer answers to keys that are due. -/
theorem served_of_getGranulesREQ (hD : PeerTree Γ D root) {p : ι} (hp : Complete Γ (peers p) root) {db : StdMap Bytes Bytes}
    {keys : List Bytes} (hk : ∀ k ∈ keys, Due Γ D root db k) {v : List (Bytes × Bytes)}
    (h : getGranulesREQ (peers p) keys = some v) : Served Γ D root db v := by
  obtain ⟨h₁, h₂⟩ := getGranulesREQ_some h
  intro z hz
  have hdue := hk z.1 (by
    rw [← h₁]
    exact List.mem_map.2 ⟨z, hz, rfl⟩)
  exact ⟨hdue, ((hdue.authentic hD).agree hp).2.symm.trans (h₂ z hz)⟩

theorem Ok.serve (hD : PeerTree Γ D root) (hn : Ok Γ D had root n) {p : ι} (hp : Complete Γ (peers p) root) {keys : List Bytes}
    (hk : ∀ k ∈ keys, Due Γ D root n.node.db k) : Ok Γ D had root (n.serve peers p keys) := by
  unfold Fetch.serve
  split
  · exact hn
  · next v hv =>
    refine ⟨hn.inv, hn.requests, fun w hw => ?_⟩
    rcases List.mem_append.1 hw with hold | hnew
    · exact hn.answers w hold
    · obtain rfl := List.mem_singleton.1 hnew
      exact served_of_getGranulesREQ hD hp hk hv

/-- An answer is read: what is in order stays so, and what was in place stays in place. -/
theorem Ok.deliver (hD : PeerTree Γ D root) (hn : Ok Γ D had root n) {v : List (Bytes × Bytes)}
    (hv : Served Γ D root n.node.db v) (known : Bool) :
    Ok Γ D had root (n.deliver Γ v known) ∧ (n.deliver Γ v known).node.db = (n.node.write v).db ∧
      (∀ x ∈ (n.deliver Γ v known).node.syncOut,
        (x ∈ n.node.syncOut ∧ x ∉ v.map (·.1)) ∨ x ≠ [] ∧ (n.deliver Γ v known).node.db[x]? ≠ D[x]?) ∧
      (known = true → (n.deliver Γ v known).node.getPathes ≠ [] →
        (n.deliver Γ v known).requests.getLast? = some (n.deliver Γ v known).node.getPathes) := by
  obtain ⟨t, ht, hinv, hdb, hout⟩ := hn.inv.served hD hv known
  have hdel : n.deliver Γ v known =
      { n with node := t, requests := if t.getPathes ≠ [] ∧ known then n.requests ++ [t.getPathes] else n.requests } := by
    unfold Fetch.deliver
    rw [ht]
  have hplace : InPlace Γ D root n.node.db t.db := by
    rw [hdb]
    exact hv.inPlace
  rw [hdel]
  refine ⟨⟨hinv, fun keys hkeys k hk => ?_, fun w hw => (hn.answers w hw).mono hplace⟩, hdb, hout, fun hknown hne => ?_⟩
  · dsimp only at hkeys
    split at hkeys
    · rcases List.mem_append.1 hkeys with hold | hnew
      · exact (hn.requests keys hold k hk).mono hplace
      · obtain rfl := List.mem_singleton.1 hnew
        exact (hinv.due k (mem_of_getPathes hk)).1
    · exact (hn.requests keys hkeys k hk).mono hplace
  · dsimp only at hne ⊢
    rw [if_pos ⟨hne, hknown⟩, List.getLast?_append]
    rfl

/-- Every step keeps it. -/
theorem Ok.step (hD : PeerTree Γ D root) (hp : ∀ p, Complete Γ (peers p) root) (hn : Ok Γ D had root n) (st : Step ι) :
    Ok Γ D had root (st.run Γ peers root n) := by
  cases st with
  | doSync known => exact hn.doSync known
  | serve p i =>
    unfold Step.run
    dsimp only
    split
    · exact hn
    · next keys hi => exact hn.serve hD (hp p) (hn.requests keys (List.mem_of_getElem? hi))
  | deliver i known =>
    unfold Step.run
    dsimp only
    split
    · exact hn
    · next v hi => exact (hn.deliver hD (hn.answers v (List.mem_of_getElem? hi)) known).1

theorem Ok.run (hD : PeerTree Γ D root) (hp : ∀ p, Complete Γ (peers p) root) (hn : Ok Γ D had root n) (steps : List (Step ι)) :
    Ok Γ D had root (Fetch.run Γ peers root steps n) := by
  induction steps generalizing n with
  | nil => exact hn
  | cons st steps ih => exact ih (hn.step hD hp st)

/-! ## Progress -/

/-- How much is left to fetch. -/
def left (D : StdMap Bytes Bytes) (n : Fetch) : Nat :=
  behind D n.node.db + if ([] : Bytes) ∈ n.node.syncOut then 1 else 0

theorem left_le (D : StdMap Bytes Bytes) (n : Fetch) : left D n ≤ D.size + 1 := by
  have := behind_le D n.node.db
  unfold left
  split <;> omega

/-- The last request is for what is outstanding. -/
def Asks (n : Fetch) : Prop := n.node.getPathes ≠ [] → n.requests.getLast? = some n.node.getPathes

/-- Nothing is outstanding. -/
def Idle (n : Fetch) : Prop := ∀ x, x ∉ n.node.syncOut

theorem Ok.left_pos (hD : PeerTree Γ D root) (hn : Ok Γ D had root n) {x : Bytes} (hx : x ∈ n.node.syncOut) : 0 < left D n := by
  obtain ⟨hdue, hne⟩ := hn.inv.due x hx
  unfold left
  rcases hne with rfl | hne
  · rw [if_pos hx]
    omega
  · obtain ⟨b, hb⟩ := (hdue.authentic hD).stored
    have hpos : 0 < behind D n.node.db := by
      refine List.countP_pos_iff.2 ⟨(x, b), Std.ExtTreeMap.mem_toList_iff_getElem?_eq_some.2 hb, ?_⟩
      simpa [← hb] using hne
    omega

/-- With nothing outstanding an answer brings nothing up. -/
theorem Ok.idle (hD : PeerTree Γ D root) (hn : Ok Γ D had root n) (hidle : n.Idle) {v : List (Bytes × Bytes)}
    (hv : Served Γ D root n.node.db v) (known : Bool) : (n.deliver Γ v known).Idle := by
  obtain ⟨hok, hdb, hout, -⟩ := hn.deliver hD hv known
  intro x hx
  rcases hout x hx with ⟨hx, -⟩ | ⟨-, hne⟩
  · exact hidle x hx
  · have hauth := (hok.inv.due x hx).1.authentic hD
    refine hne ?_
    rw [hdb]
    exact hv.inPlace x hauth (hn.inv.done hidle hauth)

/-- The answer to the last request is read: either nothing is outstanding, or less is left. -/
theorem Ok.answered (hD : PeerTree Γ D root) (hn : Ok Γ D had root n) {v : List (Bytes × Bytes)}
    (hkeys : v.map (·.1) = n.node.getPathes) (hv : Served Γ D root n.node.db v) (known : Bool) {x : Bytes}
    (hx : x ∈ n.node.syncOut) : left D (n.deliver Γ v known) < left D n := by
  obtain ⟨-, hdb, hout, -⟩ := hn.deliver hD hv known
  have hmono : ∀ y b : Bytes, D[y]? = some b → n.node.db[y]? = some b → (n.deliver Γ v known).node.db[y]? = some b := by
    intro y b hy hyb
    rw [hdb, hv.write]
    split
    · exact hy
    · exact hyb
  have hle := behind_mono hmono
  have hnil : ([] : Bytes) ∈ (n.deliver Γ v known).node.syncOut → [] ∈ n.node.syncOut ∧ [] ∉ v.map (·.1) := by
    intro h
    rcases hout [] h with h | ⟨h, -⟩
    · exact h
    · exact absurd rfl h
  obtain ⟨k, hk⟩ := List.exists_mem_of_ne_nil _ (getPathes_ne_nil hx)
  have hkout := mem_of_getPathes hk
  obtain ⟨hdue, hne⟩ := hn.inv.due k hkout
  unfold left
  by_cases hroot : ([] : Bytes) ∈ v.map (·.1)
  · -- the root was asked for
    rw [hkeys] at hroot
    rw [if_neg fun h => (hnil h).2 (by rw [hkeys]; exact hroot), if_pos (mem_of_getPathes hroot)]
    omega
  · -- another granule was, which was not in place
    obtain ⟨b, hb⟩ := (hdue.authentic hD).stored
    have hknil : k ≠ [] := by
      rintro rfl
      exact hroot (by rw [hkeys]; exact hk)
    have hlt := behind_lt hmono hb (by rw [← hb]; exact hne.resolve_left hknil)
      (by rw [hdb, hv.write, if_pos (by rw [hkeys]; exact hk), hb])
    by_cases h : ([] : Bytes) ∈ (n.deliver Γ v known).node.syncOut
    · rw [if_pos h, if_pos (hnil h).1]
      omega
    · rw [if_neg h]
      omega

theorem exchange_eq (p : ι) : exchange Γ peers root n p =
    match (n.requests.getLast?).bind (getGranulesREQ (peers p)) with
    | none => n
    | some v => ({ n with answers := n.answers ++ [v] } : Fetch).deliver Γ v true := by
  unfold exchange Fetch.run
  simp only [List.foldl_cons, List.foldl_nil, Step.run, List.getLast?_eq_getElem?]
  cases hr : n.requests[n.requests.length - 1]? with
  | none => simp
  | some keys =>
    dsimp only [Option.bind_some]
    unfold Fetch.serve
    cases hv : getGranulesREQ (peers p) keys with
    | none => simp
    | some v => simp

/-- After an exchange nothing is outstanding, or less is left than before. -/
theorem Ok.exchange (hD : PeerTree Γ D root) (hp : ∀ p, Complete Γ (peers p) root) (hn : Ok Γ D had root n) (hask : n.Asks)
    (p : ι) : Ok Γ D had root (exchange Γ peers root n p) ∧ (exchange Γ peers root n p).Asks ∧
      (n.Idle → (exchange Γ peers root n p).Idle) ∧
      ((exchange Γ peers root n p).Idle ∨ left D (exchange Γ peers root n p) < left D n) := by
  have hlast : ∀ keys, n.requests.getLast? = some keys → ∀ k ∈ keys, Due Γ D root n.node.db k :=
    fun keys h => hn.requests keys (List.mem_of_getLast? h)
  rw [exchange_eq]
  cases hv : (n.requests.getLast?).bind (getGranulesREQ (peers p)) with
  | none =>
    refine ⟨hn, hask, id, .inl fun x hx => ?_⟩
    -- a key is outstanding, so that the last request has an answer
    have hreq := hask (getPathes_ne_nil hx)
    obtain ⟨v, hv'⟩ := @getGranulesREQ_isSome (peers p) n.node.getPathes
      (Authentic.top (hp p).top).stored fun k hk => (((hn.getPathes hk).authentic hD).agree (hp p)).1.stored
    rw [hreq, Option.bind_some, hv'] at hv
    cases hv
  | some v =>
    obtain ⟨keys, hkeys, hreq⟩ := Option.bind_eq_some_iff.1 hv
    have hserved := served_of_getGranulesREQ hD (hp p) (hlast keys hkeys) hreq
    have hn' : Ok Γ D had root { n with answers := n.answers ++ [v] } := by
      refine ⟨hn.inv, hn.requests, fun w hw => ?_⟩
      rcases List.mem_append.1 hw with hold | hnew
      · exact hn.answers w hold
      · obtain rfl := List.mem_singleton.1 hnew
        exact hserved
    obtain ⟨hok, -, -, hasks⟩ := hn'.deliver hD hserved true
    refine ⟨hok, hasks rfl, fun hidle => hn'.idle hD hidle hserved true, ?_⟩
    by_cases hidle : n.Idle
    · exact .inl (hn'.idle hD hidle hserved true)
    · obtain ⟨x, hx⟩ := not_forall_not.1 hidle
      have hgp := hask (getPathes_ne_nil hx)
      rw [hkeys] at hgp
      obtain rfl := Option.some.inj hgp
      exact .inr (hn'.answered hD (getGranulesREQ_some hreq).1 hserved true hx)

/-- As many exchanges as there is left bring in the rest. -/
theorem Ok.exchanges (hD : PeerTree Γ D root) (hp : ∀ p, Complete Γ (peers p) root) (hn : Ok Γ D had root n) (hask : n.Asks)
    (ps : List ι) (h : n.Idle ∨ left D n ≤ ps.length) :
    Ok Γ D had root (ps.foldl (Fetch.exchange Γ peers root) n) ∧ (ps.foldl (Fetch.exchange Γ peers root) n).Idle := by
  induction ps generalizing n with
  | nil =>
    refine ⟨hn, h.elim id fun hle x hx => ?_⟩
    have := hn.left_pos hD hx
    simp only [List.length_nil] at hle
    omega
  | cons p ps ih =>
    obtain ⟨hok, hasks, hkeep, hnext⟩ := hn.exchange hD hp hask p
    refine ih hok hasks ?_
    rcases h with hidle | hle
    · exact .inl (hkeep hidle)
    · refine hnext.imp_right fun hlt => ?_
      simp only [List.length_cons] at hle
      omega

end Runs

end Fetch

namespace Sample

/-- The tree of a block in which the child has changed. -/
def changedTree : StdMap Bytes Bytes := (Std.ExtTreeMap.insert ∅ [] [2, 1, 5]).insert [7] [1, 5]

theorem changedTree_getElem? (k : Bytes) :
    changedTree[k]? = if [7] = k then some [1, 5] else if [] = k then some [2, 1, 5] else none := by
  change ((Std.ExtTreeMap.insert ∅ [] [2, 1, 5] : StdMap Bytes Bytes).insert [7] [1, 5])[k]? = _
  rw [StdMap.getElem?_insert, StdMap.getElem?_insert]
  simp

theorem changedTree_peer : PeerTree syncCtx changedTree [2, 1, 5] := by
  refine ⟨⟨⟨_, changedTree_getElem? [], rfl⟩, fun k b id h cs _ hb hcs hid => ?_⟩, fun k b _ hb => ?_⟩ <;>
    rw [changedTree_getElem?] at hb <;> split at hb
  · obtain rfl := Option.some.inj hb
    obtain rfl : ∅ = cs := Option.some.inj hcs
    simp at hid
  · split at hb
    · next hk =>
      obtain rfl := Option.some.inj hb
      obtain rfl : Std.ExtTreeMap.insert ∅ [7] [1, 5] = cs := Option.some.inj hcs
      obtain ⟨rfl, rfl⟩ := one_child hid
      rw [← hk]
      exact ⟨[1, 5], changedTree_getElem? [7], rfl⟩
    · nomatch hb
  · obtain rfl := Option.some.inj hb
    exact shape_leaf k [5]
  · split at hb
    · next hk =>
      obtain rfl := Option.some.inj hb
      rw [← hk]
      exact shape_top 2 [1, 5] (by decide) (by decide)
    · nomatch hb

end Sample

namespace Fetch

variable {ι : Type} {Γ : SyncCtx} {peers : ι → StdMap Bytes Bytes} {root : Bytes}

/-- A node with a whole tree of its own catches up with a block whose tree the other nodes have. Whatever is sent and read in
between: what it stores is what it had or a granule of that tree, and if nothing is outstanding it has all of the tree. -/
theorem fetch_sound (hpeers : ∀ p, PeerTree Γ (peers p) root) (s : SyncSt) (hs : Whole Γ s) (known : Bool) (steps : List (Step ι))
    (q : ι) :
    let n := run Γ peers root steps (({ node := s } : Fetch).doSync root known)
    (∀ k b : Bytes, n.node.db[k]? = some b → s.db[k]? = some b ∨ ∀ p, Authentic Γ (peers p) root k ∧ (peers p)[k]? = some b) ∧
      (n.node.syncOut = ∅ → ∀ (p : ι) (k : Bytes), Authentic Γ (peers p) root k → n.node.db[k]? = (peers p)[k]?) := by
  intro n
  have hok := (start_ok (hpeers q) hs known).run (hpeers q) (fun p => (hpeers p).complete) steps
  constructor
  · intro k b hb
    rcases hok.inv.stored k b hb with hold | ⟨hauth, hq⟩
    · exact .inl hold
    · refine .inr fun p => ?_
      obtain ⟨h₁, h₂⟩ := hauth.agree (hpeers p).complete
      exact ⟨h₁, h₂.trans hq⟩
  · intro hempty p k hk
    obtain ⟨hauth, heq⟩ := hk.agree (hpeers q).complete
    exact (hok.inv.done (Std.ExtTreeSet.eq_empty_iff_forall_not_mem.1 hempty) hauth).trans heq

open Sample in
theorem fetch_sound_sample :
    let n := run syncCtx (fun _ : Unit => changedTree) [2, 1, 5] [.serve () 0, .deliver 0 true, .serve () 1, .deliver 0 true,
      .deliver 1 true]
      (({ node := twoCells } : Fetch).doSync [2, 1, 5] true)
    n.node.syncOut = ∅ ∧ ((∀ k b : Bytes, n.node.db[k]? = some b →
      twoCells.db[k]? = some b ∨ ∀ _ : Unit, Authentic syncCtx changedTree [2, 1, 5] k ∧ changedTree[k]? = some b) ∧
        (n.node.syncOut = ∅ → ∀ (_ : Unit) (k : Bytes), Authentic syncCtx changedTree [2, 1, 5] k →
        n.node.db[k]? = changedTree[k]?)) :=
  ⟨by decide +kernel, fetch_sound (fun _ => changedTree_peer) twoCells twoCells_whole true _ ()⟩

end Fetch

end Grain
