import Grain.Sync

/-!
# What a synchronisation writes

An answer is written if every granule in it has the hash its parent records, where the parent is stored. Nothing asks whether the
key was requested, whether the root granule is the one of the certified block, or whether the parent is there; and the
synchronisation is over as soon as no key is outstanding, which is before the children of the granules that have just come are
looked at. For answers that keep to what was asked the hashes form a chain from the certified root to every granule written.
-/

namespace Grain

/-- Under the key is stored a granule with the hash. -/
def Holds (Γ : SyncCtx) (db : StdMap Bytes Bytes) (k h : Bytes) : Prop := ∃ b, db[k]? = some b ∧ Γ.blake2bHash b = h

/-- The granule is a cell of the tree: its children are read, their keys are those of a cell below it, and none of them has the
hash of nothing. -/
def CellShape (Γ : SyncCtx) (k b : Bytes) : Prop :=
  ∃ cs, Γ.childrenHashes b = some cs ∧
    ∀ id h : Bytes, cs[id]? = some h → splice (k ++ id) = some (k, id) ∧ id ≠ [] ∧ h ≠ Γ.blake2bHash []

/-- The granule stored under a key is authenticated by a chain of hashes that starts at the certified root. -/
inductive Authentic (Γ : SyncCtx) (db : StdMap Bytes Bytes) (root : Bytes) : Bytes → Prop
  | top : Holds Γ db [] root → Authentic Γ db root []
  | child {k b id h : Bytes} {cs : StdMap Bytes Bytes} : Authentic Γ db root k → db[k]? = some b →
      Γ.childrenHashes b = some cs → cs[id]? = some h → Holds Γ db (k ++ id) h → Authentic Γ db root (k ++ id)

/-- Every cell reachable from the certified root is stored with the hash its parent records. -/
structure Complete (Γ : SyncCtx) (db : StdMap Bytes Bytes) (root : Bytes) : Prop where
  top : Holds Γ db [] root
  child : ∀ (k b id h : Bytes) (cs : StdMap Bytes Bytes), Authentic Γ db root k → db[k]? = some b →
    Γ.childrenHashes b = some cs → cs[id]? = some h → Holds Γ db (k ++ id) h

/-- What an answer may do: a granule that is new in the database was asked for and is authenticated, and the synchronisation ends
only with a complete tree. -/
structure SafeStep (Γ : SyncCtx) (s t : SyncSt) : Prop where
  write : ∀ k b : Bytes, t.db[k]? = some b → s.db[k]? ≠ some b → k ∈ s.asked ∧ Authentic Γ t.db s.newRootHash1 k
  finish : t.finished ≠ s.finished → Complete Γ t.db s.newRootHash1

/-- Every answer of the run does so. -/
def SafeAll (Γ : SyncCtx) : List GetGranulesRSP → SyncSt → Prop
  | [], _ => True
  | m :: ms, s => SafeStep Γ s (s.step Γ m) ∧ SafeAll Γ ms (s.step Γ m)

/-- The answer keeps to what is outstanding and was asked for; the root granule in it is that of the certified block; its
granules are cells of the tree; and if it has all that is outstanding, the children of its granules are stored with it. -/
structure Sound (Γ : SyncCtx) (s : SyncSt) (m : GetGranulesRSP) : Prop where
  asked : ∀ z ∈ m.v, z.1 ∈ s.syncOut ∧ z.1 ∈ s.asked
  root : ∀ z ∈ m.v, z.1 = [] → Γ.blake2bHash z.2 = s.newRootHash1
  shape : ∀ z ∈ m.v, CellShape Γ z.1 z.2
  last : (∀ k ∈ s.syncOut, k ∈ m.v.map (·.1)) → ∀ z ∈ m.v, ∀ (cs : StdMap Bytes Bytes) (id h : Bytes),
    Γ.childrenHashes z.2 = some cs → cs[id]? = some h → Holds Γ (s.write m.v).db (z.1 ++ id) h

/-- Every answer of the run that gets to the write is sound. -/
def SoundAll (Γ : SyncCtx) : List GetGranulesRSP → SyncSt → Prop
  | [], _ => True
  | m :: ms, s => (s.accepts Γ m = true → Sound Γ s m) ∧ SoundAll Γ ms (s.step Γ m)

/-- A node whose database holds a whole tree, and nothing is outstanding. -/
structure Whole (Γ : SyncCtx) (s : SyncSt) : Prop where
  shape : ∀ k b : Bytes, s.db[k]? = some b → (splice k).isSome = true → CellShape Γ k b
  closed : ∀ (k b id h : Bytes) (cs : StdMap Bytes Bytes), s.db[k]? = some b → (splice k).isSome = true →
    Γ.childrenHashes b = some cs → cs[id]? = some h → Holds Γ s.db (k ++ id) h
  none : s.syncOut = ∅

/-! ## The batch -/

theorem mem_of_batch {v : List (Bytes × Bytes)} {k b : Bytes} (h : (batch v)[k]? = some b) : (k, b) ∈ v := by
  have hinv : ∀ (v : List (Bytes × Bytes)) (d : StdMap Bytes Bytes),
      (v.foldl (fun d z => d.insert z.1 z.2) d)[k]? = some b → (k, b) ∈ v ∨ d[k]? = some b := by
    intro v
    induction v with
    | nil => exact fun d hd => .inr hd
    | cons z v ih =>
      intro d hd
      rcases ih _ hd with hmem | hd
      · exact .inl (List.mem_cons_of_mem z hmem)
      · rw [StdMap.getElem?_insert] at hd
        split at hd
        · next hk =>
          obtain rfl := Option.some.inj hd
          exact .inl (by rw [← hk]; exact List.mem_cons_self)
        · exact .inr hd
  rcases hinv v ∅ h with hmem | hempty
  · exact hmem
  · simp at hempty

theorem batch_of_mem {v : List (Bytes × Bytes)} {z : Bytes × Bytes} (h : z ∈ v) : ∃ b, (batch v)[z.1]? = some b := by
  have hinv : ∀ (v : List (Bytes × Bytes)) (d : StdMap Bytes Bytes), z ∈ v ∨ (∃ b, d[z.1]? = some b) →
      ∃ b, (v.foldl (fun d z => d.insert z.1 z.2) d)[z.1]? = some b := by
    intro v
    induction v with
    | nil =>
      rintro d (h | h)
      · nomatch h
      · exact h
    | cons y v ih =>
      intro d hd
      refine ih _ ?_
      by_cases hy : y.1 = z.1
      · exact .inr ⟨y.2, by rw [StdMap.getElem?_insert, if_pos hy]⟩
      · rcases hd with hd | ⟨b, hb⟩
        · rcases List.mem_cons.1 hd with rfl | hd
          · exact absurd rfl hy
          · exact .inl hd
        · exact .inr ⟨b, by rw [StdMap.getElem?_insert, if_neg hy]; exact hb⟩
  exact hinv v ∅ (.inl h)

/-- A map written over another. -/
theorem getElem?_overwrite (e d : StdMap Bytes Bytes) (k : Bytes) :
    (e.toList.foldl (fun d z => d.insert z.1 z.2) d)[k]? = (e[k]?).or d[k]? := by
  have hinv : ∀ (l : List (Bytes × Bytes)), l.Pairwise (fun a b => a.1 ≠ b.1) → ∀ d : StdMap Bytes Bytes,
      (l.foldl (fun d z => d.insert z.1 z.2) d)[k]? = ((l.find? fun z => z.1 = k).map (·.2)).or d[k]? := by
    intro l
    induction l with
    | nil => exact fun _ d => rfl
    | cons z l ih =>
      intro hl d
      obtain ⟨hz, hl⟩ := List.pairwise_cons.1 hl
      rw [List.foldl_cons, ih hl, StdMap.getElem?_insert]
      by_cases hk : z.1 = k
      · have hnone : l.find? (fun z => decide (z.1 = k)) = none := by
          rw [List.find?_eq_none]
          intro y hy hyk
          exact hz y hy (hk.trans (of_decide_eq_true hyk).symm)
        rw [hnone, if_pos hk, List.find?_cons_of_pos (by simpa using hk)]
        rfl
      · rw [if_neg hk, List.find?_cons_of_neg (by simpa using hk)]
  have hpair : e.toList.Pairwise fun a b => a.1 ≠ b.1 := by
    refine List.Pairwise.imp ?_ (Std.ExtTreeMap.distinct_keys_toList (t := e))
    intro a b hab heq
    exact hab (by rw [heq]; exact Std.ReflCmp.compare_self)
  rw [hinv _ hpair]
  congr 1
  cases he : e[k]? with
  | none =>
    rw [Option.map_eq_none_iff, List.find?_eq_none]
    rintro ⟨a, b⟩ hab hk
    obtain rfl : a = k := of_decide_eq_true hk
    rw [Std.ExtTreeMap.mem_toList_iff_getElem?_eq_some.1 hab] at he
    nomatch he
  | some b =>
    have hmem : (k, b) ∈ e.toList := Std.ExtTreeMap.mem_toList_iff_getElem?_eq_some.2 he
    cases hf : e.toList.find? fun z => z.1 = k with
    | none =>
      rw [List.find?_eq_none] at hf
      exact absurd (decide_eq_true rfl) (hf _ hmem)
    | some z =>
      have hz : z.1 = k := by simpa using List.find?_some hf
      have hget := Std.ExtTreeMap.mem_toList_iff_getElem?_eq_some.1 (List.mem_of_find?_eq_some hf)
      rw [hz, he] at hget
      simpa using (Option.some.inj hget).symm

theorem write_getElem? (s : SyncSt) (v : List (Bytes × Bytes)) (k : Bytes) :
    (s.write v).db[k]? = ((batch v)[k]?).or s.db[k]? :=
  getElem?_overwrite _ _ _

/-! ## The invariant of a synchronisation -/

/-- The granules are cells; an outstanding key is that of the root or of a child of an authenticated cell; every other child that
a stored cell records is stored with its hash; and so is the root, unless it is outstanding. -/
structure SyncInv (Γ : SyncCtx) (s : SyncSt) : Prop where
  shape : ∀ k b : Bytes, s.db[k]? = some b → (splice k).isSome = true → CellShape Γ k b
  outstanding : ∀ k ∈ s.syncOut, k = [] ∨ ∃ (p id b : Bytes) (cs : StdMap Bytes Bytes), k = p ++ id ∧
    Authentic Γ s.db s.newRootHash1 p ∧ s.db[p]? = some b ∧ Γ.childrenHashes b = some cs ∧ id ∈ cs
  closed : ∀ (k b id h : Bytes) (cs : StdMap Bytes Bytes), s.db[k]? = some b → (splice k).isSome = true →
    Γ.childrenHashes b = some cs → cs[id]? = some h → Holds Γ s.db (k ++ id) h ∨ k ++ id ∈ s.syncOut
  top : [] ∈ s.syncOut ∨ Holds Γ s.db [] s.newRootHash1

section Write

variable {Γ : SyncCtx} {s : SyncSt} {m : GetGranulesRSP}

theorem CellShape.child {k b id h : Bytes} {cs : StdMap Bytes Bytes} (hs : CellShape Γ k b) (hcs : Γ.childrenHashes b = some cs)
    (hid : cs[id]? = some h) : splice (k ++ id) = some (k, id) ∧ id ≠ [] ∧ h ≠ Γ.blake2bHash [] := by
  obtain ⟨cs', hcs', hall⟩ := hs
  obtain rfl : cs = cs' := Option.some.inj (hcs.symm.trans hcs')
  exact hall id h hid

/-- The key of an authenticated cell is one of the tree. -/
theorem Authentic.splice (hs : SyncInv Γ s) {k : Bytes} (h : Authentic Γ s.db s.newRootHash1 k) :
    (Grain.splice k).isSome = true := by
  induction h with
  | top _ => rfl
  | child _ hb hcs hid _ ih =>
    rw [((hs.shape _ _ hb ih).child hcs hid).1]
    rfl

/-- What the check says of a granule whose parent is stored. -/
theorem checkGranule_child {k b id h : Bytes} {cs : StdMap Bytes Bytes} {x : Bytes} (hs : CellShape Γ k b)
    (hb : s.db[k]? = some b) (hcs : Γ.childrenHashes b = some cs) (hid : cs[id]? = some h)
    (hc : s.checkGranule Γ (k ++ id, x) = true) : Γ.blake2bHash x = h := by
  obtain ⟨hsp, hne, -⟩ := hs.child hcs hid
  have hget : s.getGranule k = b := by
    unfold SyncSt.getGranule
    rw [hb]
    rfl
  have hbne : b ≠ [] := by
    rintro rfl
    rw [Γ.childrenHashes_nil] at hcs
    nomatch hcs
  have hkne : k ++ id ≠ [] := fun h => hne (List.append_eq_nil_iff.1 h).2
  unfold SyncSt.checkGranule at hc
  rw [if_neg hkne, hsp] at hc
  simp only [hget, if_neg hbne, hcs] at hc
  have hc := of_decide_eq_true hc
  rw [hid] at hc
  exact (Option.some.inj hc).symm

variable (hs : SyncInv Γ s) (hm : Sound Γ s m) (hc : ∀ z ∈ m.v, s.checkGranule Γ z = true)

include hs hm hc

/-- An authenticated granule is not changed by the write. -/
theorem write_authentic {k : Bytes} (h : Authentic Γ s.db s.newRootHash1 k) :
    (s.write m.v).db[k]? = s.db[k]? ∧ Authentic Γ (s.write m.v).db s.newRootHash1 k := by
  -- it is enough that a granule of the answer under the key is the one that is stored
  have hkeep : ∀ {k b : Bytes}, s.db[k]? = some b → (∀ x, (k, x) ∈ m.v → x = b) → (s.write m.v).db[k]? = s.db[k]? := by
    intro k b hb hall
    rw [write_getElem?]
    cases hx : (batch m.v)[k]? with
    | none => rfl
    | some x =>
      rw [hall x (mem_of_batch hx), hb]
      rfl
  induction h with
  | top htop =>
    obtain ⟨b, hb, hh⟩ := htop
    have heq : (s.write m.v).db[([] : Bytes)]? = s.db[([] : Bytes)]? := by
      refine hkeep hb fun x hx => Γ.blake2bHash_inj ?_
      rw [hm.root _ hx rfl, hh]
    exact ⟨heq, .top ⟨b, heq.trans hb, hh⟩⟩
  | child hk hb hcs hid hold ih =>
    obtain ⟨y, hy, hh⟩ := hold
    have hshape := hs.shape _ _ hb (hk.splice hs)
    have heq := hkeep hy fun x hx => by
      refine Γ.blake2bHash_inj ?_
      rw [checkGranule_child hshape hb hcs hid (hc _ hx), hh]
    exact ⟨heq, .child ih.2 (ih.1.trans hb) hcs hid ⟨y, heq.trans hy, hh⟩⟩

/-- A granule of the answer is what is stored under its key afterwards, and it is authenticated. -/
theorem write_mem {z : Bytes × Bytes} (hz : z ∈ m.v) :
    (s.write m.v).db[z.1]? = some z.2 ∧ Authentic Γ (s.write m.v).db s.newRootHash1 z.1 := by
  obtain ⟨x, hx⟩ := batch_of_mem hz
  have hxmem := mem_of_batch hx
  have hstored : (s.write m.v).db[z.1]? = some x := by
    rw [write_getElem?, hx]
    rfl
  rcases hs.outstanding z.1 (hm.asked z hz).1 with hnil | ⟨p, id, b, cs, hk, hp, hb, hcs, hid⟩
  · have hzx : z.2 = x := by
      refine Γ.blake2bHash_inj ?_
      rw [hm.root z hz hnil, hm.root (z.1, x) hxmem hnil]
    refine ⟨by rw [hstored, hzx], ?_⟩
    rw [hnil]
    exact .top ⟨x, by rw [← hnil]; exact hstored, hm.root (z.1, x) hxmem hnil⟩
  · obtain ⟨h, hh⟩ := (StdMap.mem_iff cs id).1 hid
    have hshape := hs.shape _ _ hb (hp.splice hs)
    obtain ⟨hp₁, hp₂⟩ := write_authentic hs hm hc hp
    have hzh : ∀ y, (z.1, y) ∈ m.v → Γ.blake2bHash y = h := by
      intro y hy
      refine checkGranule_child hshape hb hcs hh ?_
      rw [← hk]
      exact hc _ hy
    have hzx : z.2 = x := Γ.blake2bHash_inj (by rw [hzh z.2 hz, hzh x hxmem])
    refine ⟨by rw [hstored, hzx], ?_⟩
    rw [hk] at hstored ⊢
    exact .child hp₂ (hp₁.trans hb) hcs hh ⟨x, hstored, hzh x hxmem⟩

omit hc in
/-- The granules are still cells. -/
theorem write_shape {k b : Bytes} (hb : (s.write m.v).db[k]? = some b) (hsp : (splice k).isSome = true) : CellShape Γ k b := by
  rw [write_getElem?] at hb
  cases hx : (batch m.v)[k]? with
  | some x =>
    rw [hx] at hb
    obtain rfl : x = b := Option.some.inj hb
    exact hm.shape _ (mem_of_batch hx)
  | none =>
    rw [hx] at hb
    exact hs.shape k b hb hsp

omit hm in
/-- A child that a cell recorded before the write is stored with its hash, unless its key is outstanding and not in the
answer. -/
theorem write_closed {k b id h : Bytes} {cs : StdMap Bytes Bytes} (hb : s.db[k]? = some b)
    (hsp : (splice k).isSome = true) (hcs : Γ.childrenHashes b = some cs) (hid : cs[id]? = some h) :
    Holds Γ (s.write m.v).db (k ++ id) h ∨ k ++ id ∈ s.syncOut ∧ k ++ id ∉ m.v.map (·.1) := by
  cases hx : (batch m.v)[k ++ id]? with
  | some x =>
    refine .inl ⟨x, ?_, checkGranule_child (hs.shape k b hb hsp) hb hcs hid (hc _ (mem_of_batch hx))⟩
    rw [write_getElem?, hx]
    rfl
  | none =>
    rcases hs.closed k b id h cs hb hsp hcs hid with ⟨y, hy, hh⟩ | hout
    · refine .inl ⟨y, ?_, hh⟩
      rw [write_getElem?, hx]
      exact hy
    · refine .inr ⟨hout, fun hmem => ?_⟩
      obtain ⟨z, hz, hzk⟩ := List.mem_map.1 hmem
      obtain ⟨y, hy⟩ := batch_of_mem hz
      rw [hzk, hx] at hy
      nomatch hy

end Write

/-! ## The loops after the write -/

section Loops

variable {Γ : SyncCtx}

/-- Only the outstanding keys and the flags have changed. -/
structure SameDb (s t : SyncSt) : Prop where
  db : t.db = s.db
  root : t.newRootHash1 = s.newRootHash1
  asked : t.asked = s.asked

theorem SameDb.trans {s t u : SyncSt} (h : SameDb s t) (h' : SameDb t u) : SameDb s u :=
  ⟨h'.db.trans h.db, h'.root.trans h.root, h'.asked.trans h.asked⟩

theorem SameDb.rootRaises {s t : SyncSt} (h : SameDb s t) : t.rootRaises Γ = s.rootRaises Γ := by
  unfold SyncSt.rootRaises SyncSt.getGranule
  rw [h.db, h.root]

/-- One key is taken out. -/
theorem removeSyncOut_ok {s : SyncSt} (hr : s.rootRaises Γ = false) (k : Bytes) :
    ∃ t, s.removeSyncOut Γ k = .ok t ∧ SameDb s t ∧ t.syncOut = s.syncOut.erase k ∧
      (t.finished ≠ s.finished → t.syncOut.isEmpty = true) := by
  unfold SyncSt.removeSyncOut
  dsimp only
  split
  · next h =>
    have hsame : SameDb s { s with syncOut := s.syncOut.erase k, syncEmpty := true, finished := s.finished + 1 } :=
      ⟨rfl, rfl, rfl⟩
    rw [if_neg (by rw [hsame.rootRaises, hr]; exact Bool.false_ne_true)]
    exact ⟨_, rfl, hsame, rfl, fun _ => h.1⟩
  · exact ⟨_, rfl, ⟨rfl, rfl, rfl⟩, rfl, fun h => absurd rfl h⟩

theorem mem_eraseOut (out : StdSet Bytes) (k x : Bytes) : x ∈ out.erase k ↔ x ∈ out ∧ x ≠ k := by
  rw [Std.ExtTreeSet.mem_erase, ne_eq, Std.LawfulEqCmp.compare_eq_iff_eq]
  constructor
  · rintro ⟨hne, hx⟩
    exact ⟨hx, fun h => hne h.symm⟩
  · rintro ⟨hx, hne⟩
    exact ⟨fun h => hne h.symm, hx⟩

/-- The keys of the answer are taken out; the synchronisation ends in the loop only if none is left. -/
theorem removeAll_ok {s : SyncSt} (hr : s.rootRaises Γ = false) (v : List (Bytes × Bytes)) :
    ∃ t, SyncSt.removeAll Γ v s = .ok t ∧ SameDb s t ∧ (∀ x, x ∈ t.syncOut ↔ x ∈ s.syncOut ∧ x ∉ v.map (·.1)) ∧
      (t.finished ≠ s.finished → ∀ x, x ∉ t.syncOut) := by
  induction v generalizing s with
  | nil => exact ⟨s, rfl, ⟨rfl, rfl, rfl⟩, fun x => by simp, fun h => absurd rfl h⟩
  | cons z v ih =>
    obtain ⟨s₁, h₁, hsame, hout, hfin⟩ := removeSyncOut_ok hr z.1
    obtain ⟨t, ht, hsame', hout', hfin'⟩ := ih (hsame.rootRaises.trans hr)
    refine ⟨t, ?_, hsame.trans hsame', fun x => ?_, fun hne x hx => ?_⟩
    · unfold SyncSt.removeAll
      rw [h₁]
      exact ht
    · rw [hout', hout, mem_eraseOut, List.map_cons, List.mem_cons, not_or]
      tauto
    · by_cases hs : s₁.finished = s.finished
      · exact hfin' (by rw [hs]; exact hne) x hx
      · have hempty := hfin hs
        have hx₁ := ((hout' x).1 hx).1
        rw [Std.ExtTreeSet.isEmpty_iff] at hempty
        rw [hempty] at hx₁
        simp at hx₁

/-- A child is looked for under its key. -/
def Missing (Γ : SyncCtx) (s : SyncSt) (k : Bytes) (c : Bytes × Bytes) : Prop :=
  Γ.blake2bHash (s.getGranule (k ++ c.1)) ≠ c.2

theorem collectChildren_spec (k : Bytes) (cs : List (Bytes × Bytes)) (s : SyncSt) :
    SameDb s (SyncSt.collectChildren Γ k cs s) ∧ (SyncSt.collectChildren Γ k cs s).finished = s.finished ∧
      ∀ x, x ∈ (SyncSt.collectChildren Γ k cs s).syncOut ↔
        x ∈ s.syncOut ∨ ∃ c ∈ cs, x = k ++ c.1 ∧ Missing Γ s k c := by
  induction cs generalizing s with
  | nil => exact ⟨⟨rfl, rfl, rfl⟩, rfl, fun x => by simp [SyncSt.collectChildren]⟩
  | cons c cs ih =>
    obtain ⟨c, h⟩ := c
    unfold SyncSt.collectChildren
    by_cases hmiss : Γ.blake2bHash (s.getGranule (k ++ c)) ≠ h
    · rw [if_pos hmiss]
      obtain ⟨hsame, hfin, hout⟩ := ih (s.addSyncOut (k ++ c))
      refine ⟨⟨hsame.db, hsame.root, hsame.asked⟩, hfin, fun x => ?_⟩
      have hadd : x ∈ (s.addSyncOut (k ++ c)).syncOut ↔ x = k ++ c ∨ x ∈ s.syncOut := by
        unfold SyncSt.addSyncOut
        rw [Std.ExtTreeSet.mem_insert, Std.LawfulEqCmp.compare_eq_iff_eq]
        exact or_congr_left eq_comm
      have hiff : ∀ c', Missing Γ (s.addSyncOut (k ++ c)) k c' ↔ Missing Γ s k c' := fun _ => Iff.rfl
      simp only [hout, hadd, hiff, List.exists_mem_cons_iff]
      have hc : Missing Γ s k (c, h) := hmiss
      tauto
    · rw [if_neg hmiss]
      obtain ⟨hsame, hfin, hout⟩ := ih s
      refine ⟨hsame, hfin, fun x => ?_⟩
      rw [hout]
      simp only [List.exists_mem_cons_iff]
      have hc : ¬ Missing Γ s k (c, h) := hmiss
      tauto

theorem mem_children {cs : StdMap Bytes Bytes} {c : Bytes × Bytes} : c ∈ cs.toList ↔ cs[c.1]? = some c.2 :=
  Std.ExtTreeMap.mem_toList_iff_getElem?_eq_some

/-- The children of the answer's granules that are missing become outstanding. -/
theorem collectAll_ok {s : SyncSt} (v : List (Bytes × Bytes)) (hv : ∀ z ∈ v, (Γ.childrenHashes z.2).isSome = true) :
    ∃ t, SyncSt.collectAll Γ v s = .ok t ∧ SameDb s t ∧ t.finished = s.finished ∧
      ∀ x, x ∈ t.syncOut ↔ x ∈ s.syncOut ∨ ∃ z ∈ v, ∃ (cs : StdMap Bytes Bytes) (id h : Bytes),
        Γ.childrenHashes z.2 = some cs ∧ cs[id]? = some h ∧ x = z.1 ++ id ∧ Γ.blake2bHash (s.getGranule x) ≠ h := by
  induction v generalizing s with
  | nil => exact ⟨s, rfl, ⟨rfl, rfl, rfl⟩, rfl, fun x => by simp⟩
  | cons z v ih =>
    obtain ⟨cs, hcs⟩ := Option.isSome_iff_exists.1 (hv z List.mem_cons_self)
    obtain ⟨hsame, hfin, hout⟩ := collectChildren_spec (Γ := Γ) z.1 cs.toList s
    obtain ⟨t, ht, hsame', hfin', hout'⟩ :=
      ih (s := SyncSt.collectChildren Γ z.1 cs.toList s) fun y hy => hv y (List.mem_cons_of_mem z hy)
    have hget : ∀ x, (SyncSt.collectChildren Γ z.1 cs.toList s).getGranule x = s.getGranule x := by
      intro x
      unfold SyncSt.getGranule
      rw [hsame.db]
    refine ⟨t, ?_, hsame.trans hsame', hfin'.trans hfin, fun x => ?_⟩
    · unfold SyncSt.collectAll SyncSt.collectSyncReq2
      rw [hcs]
      exact ht
    · rw [hout', hout, List.exists_mem_cons_iff]
      simp only [hget]
      constructor
      · rintro ((hx | ⟨⟨id, h⟩, hmem, rfl, hmiss⟩) | hrest)
        · exact .inl hx
        · exact .inr (.inl ⟨cs, id, h, hcs, mem_children.1 hmem, rfl, hmiss⟩)
        · exact .inr (.inr hrest)
      · rintro (hx | ⟨cs', id, h, hcs', hid, rfl, hmiss⟩ | hrest)
        · exact .inl (.inl hx)
        · obtain rfl : cs = cs' := Option.some.inj (hcs.symm.trans hcs')
          exact .inl (.inr ⟨(id, h), mem_children.2 hid, rfl, hmiss⟩)
        · exact .inr hrest

end Loops

/-! ## Steps and runs -/

section Step

variable {Γ : SyncCtx} {s : SyncSt} {m : GetGranulesRSP}

theorem getGranule_eq {k : Bytes} (h : s.getGranule k ≠ []) : s.db[k]? = some (s.getGranule k) := by
  unfold SyncSt.getGranule at h ⊢
  cases hb : s.db[k]? with
  | none =>
    rw [hb] at h
    exact absurd rfl h
  | some b => rfl

/-- The new tree can be opened. -/
theorem write_rootRaises (hs : SyncInv Γ s) (hm : Sound Γ s m) : (s.write m.v).rootRaises Γ = false := by
  unfold SyncSt.rootRaises
  by_cases hne : (s.write m.v).getGranule [] = []
  · simp [hne]
  · obtain ⟨cs, hcs, -⟩ := write_shape hs hm (getGranule_eq hne) rfl
    simp [hcs]

/-- An answer that gets to the write: the loops go through, and where they end. -/
theorem step_accepted (hs : SyncInv Γ s) (hm : Sound Γ s m) (ha : s.accepts Γ m = true) :
    SameDb { s.write m.v with asked := (s.step Γ m).asked } (s.step Γ m) ∧
      (∀ x, x ∈ (s.step Γ m).syncOut ↔ (x ∈ s.syncOut ∧ x ∉ m.v.map (·.1)) ∨
        ∃ z ∈ m.v, ∃ (cs : StdMap Bytes Bytes) (id h : Bytes), Γ.childrenHashes z.2 = some cs ∧ cs[id]? = some h ∧
          x = z.1 ++ id ∧ Γ.blake2bHash ((s.write m.v).getGranule x) ≠ h) ∧
      ((s.step Γ m).finished ≠ s.finished → ∀ x ∈ s.syncOut, x ∈ m.v.map (·.1)) := by
  have hc : ∀ z ∈ m.v, s.checkGranule Γ z = true := by
    have hall := (Bool.and_eq_true_iff.1 ha).1
    exact List.all_eq_true.1 hall
  have hunpack : ∀ z ∈ m.v, (Γ.childrenHashes z.2).isSome = true := by
    intro z hz
    obtain ⟨cs, hcs, -⟩ := hm.shape z hz
    rw [hcs]
    rfl
  obtain ⟨t₁, h₁, hsame₁, hout₁, hfin₁⟩ := removeAll_ok (write_rootRaises hs hm) m.v
  obtain ⟨t₂, h₂, hsame₂, hfin₂, hout₂⟩ := collectAll_ok (s := t₁) m.v hunpack
  have hstep : s.step Γ m = if t₂.getPathes ≠ [] ∧ m.responderKnown then t₂.request else t₂ := by
    have hrsp : s.getGranulesRSP Γ m = .ok (if t₂.getPathes ≠ [] ∧ m.responderKnown then t₂.request else t₂) := by
      unfold SyncSt.getGranulesRSP
      rw [if_pos ha, h₁]
      change (SyncSt.collectAll Γ m.v t₁ >>= _) = _
      rw [h₂]
      rfl
    unfold SyncSt.step
    rw [hrsp]
  have hfields : (s.step Γ m).db = t₂.db ∧ (s.step Γ m).newRootHash1 = t₂.newRootHash1 ∧ (s.step Γ m).syncOut = t₂.syncOut ∧
      (s.step Γ m).finished = t₂.finished := by
    rw [hstep]
    split <;> exact ⟨rfl, rfl, rfl, rfl⟩
  obtain ⟨hdb, hroot, hout, hfin⟩ := hfields
  have hget : ∀ x, t₁.getGranule x = (s.write m.v).getGranule x := by
    intro x
    unfold SyncSt.getGranule
    rw [hsame₁.db]
  refine ⟨⟨?_, ?_, rfl⟩, fun x => ?_, fun hne x hx => ?_⟩
  · rw [hdb, hsame₂.db, hsame₁.db]
  · rw [hroot, hsame₂.root, hsame₁.root]
  · rw [hout, hout₂, hout₁]
    simp only [hget]
    rfl
  · by_contra hmem
    refine hfin₁ ?_ x ((hout₁ x).2 ⟨hx, hmem⟩)
    rw [← hfin₂, ← hfin]
    exact hne

/-- A child whose granule has the recorded hash is stored. -/
theorem holds_of_hash {k b id h : Bytes} {cs : StdMap Bytes Bytes} (hshape : CellShape Γ k b)
    (hcs : Γ.childrenHashes b = some cs) (hid : cs[id]? = some h) (hh : Γ.blake2bHash (s.getGranule (k ++ id)) = h) :
    Holds Γ s.db (k ++ id) h := by
  refine ⟨s.getGranule (k ++ id), getGranule_eq fun hnil => ?_, hh⟩
  rw [hnil] at hh
  exact (hshape.child hcs hid).2.2 hh.symm

/-- A sound answer keeps the invariant and writes only what was asked for and is authenticated. -/
theorem SyncInv.step (hs : SyncInv Γ s) (hm : s.accepts Γ m = true → Sound Γ s m) :
    SyncInv Γ (s.step Γ m) ∧ SafeStep Γ s (s.step Γ m) := by
  by_cases ha : s.accepts Γ m = true
  swap
  · have hstep : s.step Γ m = s := by
      unfold SyncSt.step SyncSt.getGranulesRSP
      rw [if_neg ha]
    rw [hstep]
    exact ⟨hs, fun k b h hne => absurd h hne, fun h => absurd rfl h⟩
  have hm := hm ha
  have hc : ∀ z ∈ m.v, s.checkGranule Γ z = true := List.all_eq_true.1 (Bool.and_eq_true_iff.1 ha).1
  obtain ⟨⟨hdb, hroot, -⟩, hout, hfin⟩ := step_accepted hs hm ha
  have hdb : (s.step Γ m).db = (s.write m.v).db := hdb
  have hroot : (s.step Γ m).newRootHash1 = s.newRootHash1 := hroot
  have htop : ([] : Bytes) ∈ m.v.map (·.1) ∨ Holds Γ s.db [] s.newRootHash1 → Holds Γ (s.write m.v).db [] s.newRootHash1 := by
    rintro (hmem | htop)
    · obtain ⟨z, hz, hnil⟩ := List.mem_map.1 hmem
      have hz' := (write_mem hs hm hc hz).1
      rw [hnil] at hz'
      exact ⟨z.2, hz', hm.root z hz hnil⟩
    · obtain ⟨b, hb, hh⟩ := htop
      exact ⟨b, (write_authentic hs hm hc (.top ⟨b, hb, hh⟩)).1.trans hb, hh⟩
  -- a stored cell is one of the answer's granules, or was stored before
  have hcases : ∀ k b : Bytes, (s.write m.v).db[k]? = some b → (k, b) ∈ m.v ∨ s.db[k]? = some b := by
    intro k b hb
    rw [write_getElem?] at hb
    cases hx : (batch m.v)[k]? with
    | some x =>
      rw [hx] at hb
      obtain rfl : x = b := Option.some.inj hb
      exact .inl (mem_of_batch hx)
    | none =>
      rw [hx] at hb
      exact .inr hb
  refine ⟨⟨?_, ?_, ?_, ?_⟩, ?_, ?_⟩
  · intro k b hb hsp
    rw [hdb] at hb
    exact write_shape hs hm hb hsp
  · intro k hk
    rw [hdb, hroot]
    rcases (hout k).1 hk with ⟨hk, hnot⟩ | ⟨z, hz, cs, id, h, hcs, hid, rfl, -⟩
    · rcases hs.outstanding k hk with hnil | ⟨p, id, b, cs, hk, hp, hb, hcs, hid⟩
      · exact .inl hnil
      · obtain ⟨hp₁, hp₂⟩ := write_authentic hs hm hc hp
        exact .inr ⟨p, id, b, cs, hk, hp₂, hp₁.trans hb, hcs, hid⟩
    · obtain ⟨hz₁, hz₂⟩ := write_mem hs hm hc hz
      exact .inr ⟨z.1, id, z.2, cs, rfl, hz₂, hz₁, hcs, (StdMap.mem_iff cs id).2 ⟨h, hid⟩⟩
  · intro k b id h cs hb hsp hcs hid
    rw [hdb] at hb ⊢
    rcases hcases k b hb with hmem | hold
    · by_cases hh : Γ.blake2bHash ((s.write m.v).getGranule (k ++ id)) = h
      · exact .inl (holds_of_hash (write_shape hs hm hb hsp) hcs hid hh)
      · exact .inr ((hout _).2 (.inr ⟨(k, b), hmem, cs, id, h, hcs, hid, rfl, hh⟩))
    · rcases write_closed hs hc hold hsp hcs hid with hh | ⟨ho, hnot⟩
      · exact .inl hh
      · exact .inr ((hout _).2 (.inl ⟨ho, hnot⟩))
  · rw [hdb, hroot]
    rcases hs.top with ho | hh
    · by_cases hmem : ([] : Bytes) ∈ m.v.map (·.1)
      · exact .inr (htop (.inl hmem))
      · exact .inl ((hout _).2 (.inl ⟨ho, hmem⟩))
    · exact .inr (htop (.inr hh))
  · intro k b hb hne
    rw [hdb] at hb ⊢
    rcases hcases k b hb with hmem | hold
    · exact ⟨(hm.asked _ hmem).2, (write_mem hs hm hc hmem).2⟩
    · exact absurd hold hne
  · intro hne
    have hall := hfin hne
    have hlast := hm.last hall
    rw [hdb]
    refine ⟨?_, ?_⟩
    · rcases hs.top with ho | hh
      · exact htop (.inl (hall _ ho))
      · exact htop (.inr hh)
    · intro k b id h cs hk hb hcs hid
      rcases hcases k b hb with hmem | hold
      · exact hlast _ hmem cs id h hcs hid
      · have hsp : (splice k).isSome = true := by
          -- keys of authenticated cells are those of the tree
          clear hold hcs hid hb
          induction hk with
          | top _ => rfl
          | child _ hb hcs hid _ ih =>
            rw [((write_shape hs hm hb ih).child hcs hid).1]
            rfl
        rcases write_closed hs hc hold hsp hcs hid with hh | ⟨ho, hnot⟩
        · exact hh
        · exact absurd (hall _ ho) hnot

theorem SyncInv.run (hs : SyncInv Γ s) (ms : List GetGranulesRSP) (h : SoundAll Γ ms s) : SafeAll Γ ms s := by
  induction ms generalizing s with
  | nil => trivial
  | cons m ms ih =>
    obtain ⟨hs', hsafe⟩ := hs.step h.1
    exact ⟨hsafe, ih hs' h.2⟩

/-- The invariant holds when a synchronisation starts. -/
theorem Whole.doSync (hs : Whole Γ s) (root : Bytes) : SyncInv Γ (s.doSync root) := by
  have hout : ∀ x, x ∈ (s.doSync root).syncOut ↔ x = [] := by
    intro x
    change x ∈ s.syncOut.insert [] ↔ _
    rw [hs.none, Std.ExtTreeSet.mem_insert, Std.LawfulEqCmp.compare_eq_iff_eq]
    simp [eq_comm]
  refine ⟨hs.shape, fun k hk => .inl ((hout k).1 hk), ?_, .inl ((hout []).2 rfl)⟩
  intro k b id h cs hb hsp hcs hid
  exact .inl (hs.closed k b id h cs hb hsp hcs hid)

end Step

/-- A synchronisation of a node with a whole tree towards a certified root: if every answer that gets to the write is sound, a
granule is written only if its key was asked for and it is authenticated by the chain of hashes from that root, and the
synchronisation ends only with every cell reachable from the root in place. -/
theorem sync_safe (Γ : SyncCtx) (s : SyncSt) (hs : Whole Γ s) (root : Bytes) (ms : List GetGranulesRSP)
    (h : SoundAll Γ ms (s.doSync root)) : SafeAll Γ ms (s.doSync root) :=
  (hs.doSync root).run ms h

/-! ## Answers that are not sound -/

namespace Sample

/-- A hash that is its own preimage, and granules that begin with a mark: 1 for a cell without children, a larger one for a cell
with one child, whose hash follows. -/
def syncCtx : SyncCtx where
  blake2bHash b := b
  blake2bHash_inj _ _ h := h
  childrenHashes
    | [] => none
    | 0 :: _ => none
    | 1 :: _ => some ∅
    | _ :: h => some (Std.ExtTreeMap.insert ∅ [7] h)
  childrenHashes_nil := rfl

/-- A node with a tree of two cells. -/
def twoCells : SyncSt where
  db := (Std.ExtTreeMap.insert ∅ [] [2, 1]).insert [7] [1]

/-- The root granule of a block in which the child has changed. -/
def rootAnswer : GetGranulesRSP := { v := [([], [2, 1, 5])] }

/-- A granule nobody asked for, in a part of the tree that is not there. -/
def strayAnswer : GetGranulesRSP := { v := [([9, 9], [1])] }

/-- The root granule of a block in which only the root has changed. -/
def topAnswer : GetGranulesRSP := { v := [([], [3, 1])] }

theorem twoCells_getElem? (k : Bytes) :
    twoCells.db[k]? = if [7] = k then some [1] else if [] = k then some [2, 1] else none := by
  change ((Std.ExtTreeMap.insert ∅ [] [2, 1] : StdMap Bytes Bytes).insert [7] [1])[k]? = _
  rw [StdMap.getElem?_insert, StdMap.getElem?_insert]
  simp

theorem one_child {id h x : Bytes} (hid : (Std.ExtTreeMap.insert ∅ [7] x : StdMap Bytes Bytes)[id]? = some h) :
    id = [7] ∧ h = x := by
  rw [StdMap.getElem?_insert] at hid
  split at hid
  · next hk => exact ⟨hk.symm, (Option.some.inj hid).symm⟩
  · simp at hid

/-- A cell with one child below the root. -/
theorem shape_top (t : Nat) (x : Bytes) (ht : 1 < t) (hx : x ≠ []) : CellShape syncCtx [] (t :: x) := by
  obtain ⟨t, rfl⟩ : ∃ n, t = n + 2 := ⟨t - 2, by omega⟩
  refine ⟨_, rfl, fun id h hid => ?_⟩
  obtain ⟨rfl, rfl⟩ := one_child hid
  exact ⟨rfl, by decide, hx⟩

theorem shape_leaf (k : Bytes) (x : Bytes) : CellShape syncCtx k (1 :: x) := by
  refine ⟨∅, rfl, fun id h hid => ?_⟩
  simp at hid

theorem twoCells_whole : Whole syncCtx twoCells := by
  refine ⟨fun k b hb _ => ?_, fun k b id h cs hb _ hcs hid => ?_, rfl⟩ <;> rw [twoCells_getElem?] at hb <;> split at hb
  · obtain rfl := Option.some.inj hb
    exact shape_leaf k []
  · split at hb
    · next hk =>
      obtain rfl := Option.some.inj hb
      rw [← hk]
      exact shape_top 2 [1] (by decide) (by decide)
    · nomatch hb
  · obtain rfl := Option.some.inj hb
    obtain rfl : ∅ = cs := Option.some.inj hcs
    simp at hid
  · split at hb
    · next hk =>
      obtain rfl := Option.some.inj hb
      obtain rfl : Std.ExtTreeMap.insert ∅ [7] [1] = cs := Option.some.inj hcs
      obtain ⟨rfl, rfl⟩ := one_child hid
      refine ⟨[1], ?_, rfl⟩
      rw [← hk, twoCells_getElem?]
      rfl
    · nomatch hb

end Sample

open Sample in
/-- The root granule that was asked for ends the synchronisation while the child has not been fetched; and a granule that was not
asked for is written, its parent not being stored. -/
theorem sync_safe_false :
    Whole syncCtx twoCells ∧ ¬ SafeAll syncCtx [rootAnswer] (twoCells.doSync [2, 1, 5]) ∧
      ¬ SafeAll syncCtx [strayAnswer] (twoCells.doSync [2, 1, 5]) := by
  refine ⟨twoCells_whole, fun h => ?_, fun h => ?_⟩
  · have hdb : ((twoCells.doSync [2, 1, 5]).step syncCtx rootAnswer).db[([] : Bytes)]? = some [2, 1, 5] ∧
        ((twoCells.doSync [2, 1, 5]).step syncCtx rootAnswer).db[([7] : Bytes)]? = some [1] := by decide +kernel
    have hc := h.1.finish (by decide +kernel)
    obtain ⟨b, hb, hh⟩ := hc.child [] [2, 1, 5] [7] [1, 5] _ (.top hc.top) hdb.1 rfl (by decide +kernel)
    rw [List.nil_append, hdb.2] at hb
    obtain rfl := Option.some.inj hb
    revert hh
    decide
  · have hw := h.1.write [9, 9] [1] (by decide +kernel) (by decide +kernel)
    exact absurd hw.1 (by decide +kernel)

open Sample in
/-- The root granule of a block in which nothing below the root has changed ends the synchronisation with the tree in place. -/
theorem sync_safe_sample :
    SafeAll syncCtx [topAnswer] (twoCells.doSync [3, 1]) ∧ ((twoCells.doSync [3, 1]).run syncCtx [topAnswer]).finished = 1 := by
  refine ⟨sync_safe syncCtx twoCells twoCells_whole [3, 1] [topAnswer] ⟨fun _ => ?_, trivial⟩, by decide +kernel⟩
  have hv : ∀ z ∈ topAnswer.v, z = ([], [3, 1]) := fun z hz => List.mem_singleton.1 hz
  refine ⟨fun z hz => ?_, fun z hz _ => ?_, fun z hz => ?_, fun _ z hz cs id h hcs hid => ?_⟩ <;> obtain rfl := hv z hz
  · exact ⟨by decide +kernel, by decide +kernel⟩
  · rfl
  · exact shape_top 3 [1] (by decide) (by decide)
  · obtain rfl : Std.ExtTreeMap.insert ∅ [7] [1] = cs := Option.some.inj hcs
    obtain ⟨rfl, rfl⟩ := one_child hid
    exact ⟨[1], by decide +kernel, rfl⟩

end Grain
