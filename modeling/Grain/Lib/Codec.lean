import Mathlib.Data.List.Basic
import Mathlib.Data.List.Sort
import Mathlib.Data.List.Nodup
import Mathlib.Logic.Basic

/-!
# Packing and unpacking

A value is packed into a list of tokens, and a reader takes it off the front of a stream; that it raises is `none`. `Reads` says
that a reader gives a packed value back exactly on a condition, which is then an equivalence that passes through sequences,
counted lists, sets and maps: a count is written modulo some `M`, so a container comes back only if it has fewer elements.
-/

namespace Codec

variable {β α γ : Type}

/-- A reader of values from the front of a stream. -/
abbrev Reader (β α : Type) := StateT (List β) Option α

/-- The reader gives the value back from the tokens, whatever follows them, if the condition holds, and only then. -/
structure Reads (u : Reader β α) (p : List β) (v : α) (ok : Prop) : Prop where
  back : ok → ∀ r, u (p ++ r) = some (v, r)
  only : ∀ r s, u (p ++ r) = some (v, s) → ok

section Reader

variable {u : Reader β α} {f : α → Reader β γ} {s : List β}

theorem bind_eq_some {c : γ} {t : List β} : (u >>= f) s = some (c, t) ↔ ∃ a q, u s = some (a, q) ∧ f a q = some (c, t) := by
  constructor
  · intro h
    cases hu : u s with
    | none =>
      have hb : (u >>= f) s = none := by simp [bind, StateT.bind, hu]
      rw [hb] at h
      cases h
    | some x =>
      have hb : (u >>= f) s = f x.1 x.2 := by simp [bind, StateT.bind, hu]
      exact ⟨x.1, x.2, rfl, hb ▸ h⟩
  · rintro ⟨a, q, hu, hf⟩
    simp [bind, StateT.bind, hu, hf]

/-- A sequence goes on with what its first part gave. -/
theorem bind_apply {a : α} {q : List β} (h : u s = some (a, q)) : (u >>= f) s = f a q := by
  simp [bind, StateT.bind, h]

theorem pure_eq_some {a b : α} {t : List β} : (pure a : Reader β α) s = some (b, t) ↔ b = a ∧ t = s := by
  constructor
  · intro h
    cases h
    exact ⟨rfl, rfl⟩
  · rintro ⟨rfl, rfl⟩
    rfl

end Reader

namespace Reads

variable {u : Reader β α} {p : List β} {v : α} {ok : Prop}

/-- A reader that gave the value back left what followed the tokens. -/
theorem step (h : Reads u p v ok) {r s : List β} (hs : u (p ++ r) = some (v, s)) : ok ∧ s = r := by
  have hok := h.only r s hs
  have hb := h.back hok r
  rw [hs] at hb
  cases hb
  exact ⟨hok, rfl⟩

/-- A value that always comes back. -/
theorem always (h : ∀ r, u (p ++ r) = some (v, r)) : Reads u p v True := ⟨fun _ => h, fun _ _ _ => trivial⟩

theorem congr {ok' : Prop} (h : Reads u p v ok) (hok : ok ↔ ok') : Reads u p v ok' :=
  ⟨fun h' => h.back (hok.2 h'), fun r s hs => hok.1 (h.only r s hs)⟩

/-- A reader that does the same on other tokens. -/
theorem of_eq {u' : Reader β α} {p' : List β} (h : Reads u p v ok) (he : ∀ r, u' (p' ++ r) = u (p ++ r)) : Reads u' p' v ok := by
  refine ⟨?_, ?_⟩
  · intro hok r
    rw [he]
    exact h.back hok r
  · intro r s hs
    rw [he] at hs
    exact h.only r s hs

/-- With nothing after it: the value comes back from its own tokens exactly on the condition. -/
theorem iff_nil (h : Reads u p v ok) : u p = some (v, []) ↔ ok := by
  constructor
  · intro hs
    refine h.only [] [] ?_
    rwa [List.append_nil]
  · intro hok
    have := h.back hok []
    rwa [List.append_nil] at this

/-- The value comes back whatever follows exactly on the condition. -/
theorem iff_forall (h : Reads u p v ok) : (∀ r, u (p ++ r) = some (v, r)) ↔ ok := by
  constructor
  · intro hs
    exact h.only [] [] (hs [])
  · intro hok
    exact h.back hok

end Reads

/-- Whatever a reader gives satisfies `P`. -/
def Yields (u : Reader β α) (P : α → Prop) : Prop := ∀ s a t, u s = some (a, t) → P a

theorem Yields.pure {P : α → Prop} {a : α} (h : P a) : Yields (Pure.pure a : Reader β α) P := by
  intro s b t hs
  rw [(pure_eq_some.1 hs).1]
  exact h

theorem Yields.bind {u : Reader β α} {f : α → Reader β γ} {P : γ → Prop} (h : ∀ a, Yields (f a) P) : Yields (u >>= f) P := by
  intro s c t hs
  obtain ⟨a, q, -, hf⟩ := bind_eq_some.1 hs
  exact h a q c t hf

section Sequence

variable {u : Reader β α} {f : α → Reader β γ} {p : List β} {ps : List (List β)} {v : α} {c : γ} {ok ok' : Prop}

/-- The end of a sequence of parts. -/
theorem reads_pure (c : γ) : Reads (pure c : Reader β γ) [].flatten c True := .always fun _ => rfl

/-- A part that always comes back, and the rest. -/
theorem Reads.then (h : Reads u p v True) (hf : Reads (f v) ps.flatten c ok) : Reads (u >>= f) (p :: ps).flatten c ok := by
  refine ⟨?_, ?_⟩
  · intro hok r
    rw [List.flatten_cons, List.append_assoc]
    exact bind_eq_some.2 ⟨v, ps.flatten ++ r, h.back trivial _, hf.back hok r⟩
  · intro r s hs
    rw [List.flatten_cons, List.append_assoc] at hs
    obtain ⟨a, t, hu, hs⟩ := bind_eq_some.1 hs
    rw [h.back trivial] at hu
    cases hu
    exact hf.only r s hs

/-- A part of the result, with its own condition, and the rest; `g` finds the part in the result. -/
theorem Reads.part (g : γ → α) (h : Reads u p v ok) (hf : Reads (f v) ps.flatten c ok') (hg : g c = v)
    (hy : ∀ a, Yields (f a) fun c => g c = a) : Reads (u >>= f) (p :: ps).flatten c (ok ∧ ok') := by
  refine ⟨?_, ?_⟩
  · rintro ⟨hok, hok'⟩ r
    rw [List.flatten_cons, List.append_assoc]
    exact bind_eq_some.2 ⟨v, ps.flatten ++ r, h.back hok _, hf.back hok' r⟩
  · intro r s hs
    rw [List.flatten_cons, List.append_assoc] at hs
    obtain ⟨a, t, hu, hs⟩ := bind_eq_some.1 hs
    have ha : a = v := (hy a t c s hs).symm.trans hg
    subst ha
    obtain ⟨hok, rfl⟩ := h.step hu
    exact ⟨hok, hf.only r s hs⟩

/-- The same value under a constructor. -/
theorem Reads.map {F : α → γ} (hF : Function.Injective F) (h : Reads u p v ok) :
    Reads (u >>= fun a => pure (F a)) p (F v) ok := by
  refine ⟨?_, ?_⟩
  · intro hok r
    exact bind_eq_some.2 ⟨v, r, h.back hok r, rfl⟩
  · intro r s hs
    obtain ⟨a, t, hu, hs⟩ := bind_eq_some.1 hs
    have ha : v = a := hF (pure_eq_some.1 hs).1
    subst ha
    exact h.only r t hu

end Sequence

/-- Values that come back from equal tokens are equal. -/
theorem Reads.inj {u : Reader β α} {p : List β} {v w : α} {ok ok' : Prop} (h : Reads u p v ok) (h' : Reads u p w ok') (hv : ok)
    (hw : ok') : v = w := by
  have h1 := h.back hv []
  have h2 := h'.back hw []
  rw [h1] at h2
  cases h2
  rfl

/-! ## Lists -/

section List

variable (u : Reader β α)

/-- Read a number of values. -/
def readList : Nat → Reader β (List α)
  | 0 => pure []
  | n + 1 => do
    let a ← u
    let l ← readList n
    pure (a :: l)

variable {u}

theorem length_of_readList {n : Nat} {s t : List β} {l : List α} (h : readList u n s = some (l, t)) : l.length = n := by
  induction n generalizing s t l with
  | zero =>
    obtain ⟨rfl, -⟩ := pure_eq_some.1 h
    rfl
  | succ n ih =>
    obtain ⟨a, q, -, h⟩ := bind_eq_some.1 h
    obtain ⟨l', q', hl, h⟩ := bind_eq_some.1 h
    obtain ⟨rfl, -⟩ := pure_eq_some.1 h
    rw [List.length_cons, ih hl]

variable {w : α → List β} {ok : α → Prop}

theorem reads_list {l : List α} (h : ∀ a ∈ l, Reads u (w a) a (ok a)) :
    Reads (readList u l.length) (l.flatMap w) l (∀ a ∈ l, ok a) := by
  induction l with
  | nil =>
    refine ⟨?_, ?_⟩
    · intro _ r
      rfl
    · intro _ _ _ a ha
      cases ha
  | cons a l ih =>
    have ha := h a List.mem_cons_self
    have hl := ih fun b hb => h b (List.mem_cons_of_mem _ hb)
    refine ⟨?_, ?_⟩
    · intro hok r
      rw [List.flatMap_cons, List.append_assoc]
      refine bind_eq_some.2 ⟨a, _, ha.back (hok a List.mem_cons_self) _, bind_eq_some.2 ⟨l, r, ?_, rfl⟩⟩
      exact hl.back (fun b hb => hok b (List.mem_cons_of_mem _ hb)) r
    · intro r s hs
      rw [List.flatMap_cons, List.append_assoc] at hs
      obtain ⟨a', q, hu, hs⟩ := bind_eq_some.1 hs
      obtain ⟨l', q', hrest, hs⟩ := bind_eq_some.1 hs
      obtain ⟨he, rfl⟩ := pure_eq_some.1 hs
      cases he
      obtain ⟨hok, rfl⟩ := ha.step hu
      intro b hb
      obtain rfl | hb := List.mem_cons.1 hb
      · exact hok
      · exact hl.only r s hrest b hb

end List

/-! ## Containers -/

/-- How the number of elements of a container is written and read: it comes back modulo `M`. -/
structure Count (β : Type) where
  M : Nat
  write : Nat → List β
  read : Reader β Nat
  reads : ∀ n r, read (write n ++ r) = some (n % M, r)

section Container

variable (C : Count β) (u : Reader β α) (w : α → List β)

/-- A list with its number of elements in front. -/
def packList (l : List α) : List β := C.write l.length ++ l.flatMap w

/-- Read the number of elements, and the elements. -/
def unpackList : Reader β (List α) := do
  let n ← C.read
  readList u n

variable {C u w} {ok : α → Prop}

theorem mod_eq_self_iff {n M : Nat} (h : n % M = n) (hM : 0 < M) : n < M := by
  rw [← h]
  exact Nat.mod_lt n hM

theorem unpackList_append {l l' : List α} {r s : List β} (h : unpackList C u (packList C w l ++ r) = some (l', s)) :
    readList u (l.length % C.M) (l.flatMap w ++ r) = some (l', s) := by
  rw [packList, List.append_assoc] at h
  obtain ⟨n, q, hn, h⟩ := bind_eq_some.1 h
  rw [C.reads] at hn
  cases hn
  exact h

theorem reads_packList (hM : 0 < C.M) {l : List α} (h : ∀ a ∈ l, Reads u (w a) a (ok a)) :
    Reads (unpackList C u) (packList C w l) l (l.length < C.M ∧ ∀ a ∈ l, ok a) := by
  refine ⟨?_, ?_⟩
  · rintro ⟨hlen, hok⟩ r
    rw [packList, List.append_assoc]
    refine bind_eq_some.2 ⟨l.length, _, ?_, (reads_list h).back hok r⟩
    rw [C.reads, Nat.mod_eq_of_lt hlen]
  · intro r s hs
    have hread := unpackList_append hs
    have hlen : l.length < C.M := mod_eq_self_iff (length_of_readList hread).symm hM
    rw [Nat.mod_eq_of_lt hlen] at hread
    exact ⟨hlen, (reads_list h).only r s hread⟩

theorem reads_packList_always (hM : 0 < C.M) {l : List α} (h : ∀ a ∈ l, Reads u (w a) a True) :
    Reads (unpackList C u) (packList C w l) l (l.length < C.M) := by
  refine (@reads_packList _ _ _ _ _ (fun _ => True) hM l h).congr ?_
  constructor
  · intro hl
    exact hl.1
  · intro hl
    exact ⟨hl, fun _ _ => trivial⟩

end Container

/-! ## Sets and maps -/

section Tree

variable {κ ν : Type} {cmp : κ → κ → Ordering} [Std.TransCmp cmp] [Std.LawfulEqCmp cmp]

/-- Insert values one after the other. -/
def ofItems (l : List κ) : Std.ExtTreeSet κ cmp := l.foldl (fun s a => s.insert a) ∅

/-- Insert entries one after the other; the first under a key stays. -/
def addEntries (m : Std.ExtTreeMap κ ν cmp) (l : List (κ × ν)) : Std.ExtTreeMap κ ν cmp :=
  l.foldl (fun m e => m.insertIfNew e.1 e.2) m

theorem mem_foldl_insert (l : List κ) (s : Std.ExtTreeSet κ cmp) (a : κ) :
    a ∈ l.foldl (fun s a => s.insert a) s ↔ a ∈ s ∨ a ∈ l := by
  induction l generalizing s with
  | nil => simp
  | cons b l ih =>
    rw [List.foldl_cons, ih, Std.ExtTreeSet.mem_insert, Std.LawfulEqCmp.compare_eq_iff_eq, List.mem_cons]
    constructor
    · rintro ((rfl | h) | h)
      · exact .inr (.inl rfl)
      · exact .inl h
      · exact .inr (.inr h)
    · rintro (h | rfl | h)
      · exact .inl (.inr h)
      · exact .inl (.inl rfl)
      · exact .inr h

theorem ofItems_toList (s : Std.ExtTreeSet κ cmp) : ofItems s.toList = s := by
  apply Std.ExtTreeSet.ext_mem
  intro a
  rw [ofItems, mem_foldl_insert, Std.ExtTreeSet.mem_toList]
  simp

omit [Std.LawfulEqCmp cmp] in
theorem size_foldl_insert (l : List κ) (s : Std.ExtTreeSet κ cmp) :
    (l.foldl (fun s a => s.insert a) s).size ≤ s.size + l.length := by
  induction l generalizing s with
  | nil => simp
  | cons b l ih =>
    have h1 := ih (s.insert b)
    have h2 := Std.ExtTreeSet.size_insert_le (t := s) (k := b)
    rw [List.foldl_cons, List.length_cons]
    omega

omit [Std.LawfulEqCmp cmp] in
theorem size_ofItems (l : List κ) : (ofItems l : Std.ExtTreeSet κ cmp).size ≤ l.length := by
  have := size_foldl_insert l (∅ : Std.ExtTreeSet κ cmp)
  simpa [ofItems] using this

variable {C : Count β} {u : Reader β κ} {w : κ → List β}

/-- Read a set. -/
def unpackSet (cmp : κ → κ → Ordering) [Std.TransCmp cmp] (C : Count β) (u : Reader β κ) : Reader β (Std.ExtTreeSet κ cmp) := do
  let l ← unpackList C u
  pure (ofItems l)

/-- Write a set. -/
def packSet (C : Count β) (w : κ → List β) (s : Std.ExtTreeSet κ cmp) : List β := packList C w s.toList

theorem reads_packSet (hM : 0 < C.M) {s : Std.ExtTreeSet κ cmp} (h : ∀ a ∈ s, Reads u (w a) a True) :
    Reads (unpackSet cmp C u) (packSet C w s) s (s.size < C.M) := by
  have hl : Reads (unpackList C u) (packList C w s.toList) s.toList (s.toList.length < C.M ∧ ∀ a ∈ s.toList, True) := by
    refine reads_packList hM ?_
    intro a ha
    exact h a (Std.ExtTreeSet.mem_toList.1 ha)
  rw [Std.ExtTreeSet.length_toList] at hl
  refine ⟨?_, ?_⟩
  · intro hsize r
    refine bind_eq_some.2 ⟨_, _, hl.back ⟨hsize, fun _ _ => trivial⟩ r, ?_⟩
    rw [ofItems_toList]
    rfl
  · intro r t hs
    obtain ⟨l, q, hread, hp⟩ := bind_eq_some.1 hs
    obtain ⟨he, -⟩ := pure_eq_some.1 hp
    have hlen := length_of_readList (unpackList_append hread)
    have hsize : s.size ≤ s.size % C.M := by
      have hle : (ofItems l : Std.ExtTreeSet κ cmp).size ≤ l.length := size_ofItems l
      rwa [← he, hlen, Std.ExtTreeSet.length_toList] at hle
    exact Nat.lt_of_le_of_lt hsize (Nat.mod_lt _ hM)

/-- Read a key and its value. -/
def unpackEntry (u : Reader β κ) (x : Reader β ν) : Reader β (κ × ν) := do
  let k ← u
  let v ← x
  pure (k, v)

/-- Write a key and its value. -/
def packEntry (w : κ → List β) (y : ν → List β) (e : κ × ν) : List β := w e.1 ++ y e.2

/-- Read a map. -/
def unpackMap (cmp : κ → κ → Ordering) [Std.TransCmp cmp] (C : Count β) (u : Reader β κ) (x : Reader β ν) :
    Reader β (Std.ExtTreeMap κ ν cmp) := do
  let l ← unpackList C (unpackEntry u x)
  pure (addEntries ∅ l)

/-- Write a map. -/
def packMap (C : Count β) (w : κ → List β) (y : ν → List β) (m : Std.ExtTreeMap κ ν cmp) : List β :=
  packList C (packEntry w y) m.toList

variable {x : Reader β ν} {y : ν → List β} {ok : ν → Prop}

omit [Std.TransCmp cmp] [Std.LawfulEqCmp cmp] in
theorem reads_packEntry {e : κ × ν} (hk : Reads u (w e.1) e.1 True) (hv : Reads x (y e.2) e.2 (ok e.2)) :
    Reads (unpackEntry u x) (packEntry w y e) e (ok e.2) := by
  refine ⟨?_, ?_⟩
  · intro hok r
    rw [packEntry, List.append_assoc]
    exact bind_eq_some.2 ⟨e.1, _, hk.back trivial _, bind_eq_some.2 ⟨e.2, r, hv.back hok r, rfl⟩⟩
  · intro r s hs
    rw [packEntry, List.append_assoc] at hs
    obtain ⟨k, q, hu, hs⟩ := bind_eq_some.1 hs
    obtain ⟨v, q', hx, hs⟩ := bind_eq_some.1 hs
    obtain ⟨rfl, -⟩ := pure_eq_some.1 hs
    obtain ⟨-, rfl⟩ := hk.step hu
    exact hv.only r q' hx

/-- Under a key that is there already nothing changes. -/
theorem getElem?_addEntries_of_mem {m : Std.ExtTreeMap κ ν cmp} {k : κ} (h : k ∈ m) (l : List (κ × ν)) :
    (addEntries m l)[k]? = m[k]? := by
  induction l generalizing m with
  | nil => rfl
  | cons e l ih =>
    have hk : k ∈ m.insertIfNew e.1 e.2 := Std.ExtTreeMap.mem_insertIfNew.2 (.inr h)
    have hi := ih hk
    rw [addEntries, List.foldl_cons]
    rw [addEntries] at hi
    rw [hi, Std.ExtTreeMap.getElem?_insertIfNew, if_neg]
    rintro ⟨he, hn⟩
    rw [Std.LawfulEqCmp.compare_eq_iff_eq] at he
    exact hn (he ▸ h)

theorem getElem?_insertIfNew_self {m : Std.ExtTreeMap κ ν cmp} {k : κ} (h : k ∉ m) (v : ν) : (m.insertIfNew k v)[k]? = some v := by
  rw [Std.ExtTreeMap.getElem?_insertIfNew, if_pos ⟨Std.ReflCmp.compare_self, h⟩]

/-- Entries under new and different keys are all found. -/
theorem getElem?_addEntries {m : Std.ExtTreeMap κ ν cmp} {l : List (κ × ν)} (hnd : (l.map (·.1)).Nodup)
    (hnew : ∀ e ∈ l, e.1 ∉ m) (a : κ) : (addEntries m l)[a]? = ((l.find? fun e => cmp e.1 a = .eq).map (·.2)).or m[a]? := by
  induction l generalizing m with
  | nil => simp [addEntries]
  | cons e l ih =>
    obtain ⟨hne, hnd⟩ := List.nodup_cons.1 hnd
    have he := hnew e List.mem_cons_self
    rw [List.find?_cons]
    by_cases hea : cmp e.1 a = .eq
    · have ha : e.1 = a := Std.LawfulEqCmp.compare_eq_iff_eq.1 hea
      have hmem : a ∈ m.insertIfNew e.1 e.2 := Std.ExtTreeMap.mem_insertIfNew.2 (.inl hea)
      have := getElem?_addEntries_of_mem hmem l
      rw [addEntries, List.foldl_cons]
      rw [addEntries] at this
      subst ha
      rw [this, getElem?_insertIfNew_self he]
      simp [hea]
    · have hi := ih (m := m.insertIfNew e.1 e.2) hnd (by
        intro b hb hmem
        obtain hc | hc := Std.ExtTreeMap.mem_insertIfNew.1 hmem
        · rw [Std.LawfulEqCmp.compare_eq_iff_eq] at hc
          exact hne (List.mem_map.2 ⟨b, hb, hc.symm⟩)
        · exact hnew b (List.mem_cons_of_mem _ hb) hc)
      rw [addEntries, List.foldl_cons]
      rw [addEntries] at hi
      rw [hi, Std.ExtTreeMap.getElem?_insertIfNew, if_neg (by rintro ⟨h, -⟩; exact hea h)]
      simp [hea]

theorem keys_nodup (m : Std.ExtTreeMap κ ν cmp) : (m.toList.map (·.1)).Nodup := by
  rw [List.nodup_iff_pairwise_ne, List.pairwise_map]
  refine m.distinct_keys_toList.imp ?_
  intro a b hab he
  exact hab (Std.LawfulEqCmp.compare_eq_iff_eq.2 he)

theorem addEntries_toList (m : Std.ExtTreeMap κ ν cmp) : addEntries ∅ m.toList = m := by
  apply Std.ExtTreeMap.ext_getElem?
  intro a
  rw [getElem?_addEntries (keys_nodup m) (by simp)]
  cases hf : m.toList.find? fun e => cmp e.1 a = .eq with
  | none =>
    have hn : m[a]? = none := by
      refine Option.eq_none_iff_forall_ne_some.2 ?_
      intro v hv
      have := List.find?_eq_none.1 hf (a, v) (Std.ExtTreeMap.mem_toList_iff_getElem?_eq_some.2 hv)
      exact this (by simp)
    simp [hn]
  | some e =>
    have hmem := List.mem_of_find?_eq_some hf
    have he : e.1 = a := by
      have := List.find?_some hf
      simpa using this
    have hv : m[a]? = some e.2 := by
      rw [← he]
      exact Std.ExtTreeMap.mem_toList_iff_getElem?_eq_some.1 hmem
    simp [hv]

omit [Std.LawfulEqCmp cmp] in
theorem size_addEntries (l : List (κ × ν)) (m : Std.ExtTreeMap κ ν cmp) : (addEntries m l).size ≤ m.size + l.length := by
  induction l generalizing m with
  | nil => simp [addEntries]
  | cons e l ih =>
    have h1 := ih (m.insertIfNew e.1 e.2)
    have h2 := Std.ExtTreeMap.size_insertIfNew_le (t := m) (k := e.1) (v := e.2)
    rw [addEntries, List.foldl_cons, List.length_cons]
    rw [addEntries] at h1
    omega

/-- Of the entries that are read the first under a key stays: so if the map comes back, every value of it did. -/
theorem entries_ok {m n : Std.ExtTreeMap κ ν cmp} {l l' : List (κ × ν)} {r s : List β} (hk : ∀ e ∈ l, Reads u (w e.1) e.1 True)
    (hv : ∀ e ∈ l, Reads x (y e.2) e.2 (ok e.2)) (hnd : (l.map (·.1)).Nodup) (hnew : ∀ e ∈ l, e.1 ∉ n)
    (hm : ∀ e ∈ l, m[e.1]? = some e.2)
    (h : readList (unpackEntry u x) l.length (l.flatMap (packEntry w y) ++ r) = some (l', s)) (hl : addEntries n l' = m) :
    ∀ e ∈ l, ok e.2 := by
  induction l generalizing n l' s with
  | nil =>
    intro e he
    cases he
  | cons e l ih =>
    obtain ⟨hne, hnd⟩ := List.nodup_cons.1 hnd
    rw [List.flatMap_cons, List.append_assoc] at h
    obtain ⟨⟨k, v⟩, q, hentry, h⟩ := bind_eq_some.1 h
    obtain ⟨l'', q', hrest, h⟩ := bind_eq_some.1 h
    obtain ⟨rfl, -⟩ := pure_eq_some.1 h
    have hke := hk e List.mem_cons_self
    have hve := hv e List.mem_cons_self
    rw [packEntry, List.append_assoc] at hentry
    obtain ⟨k', q1, hu, hentry⟩ := bind_eq_some.1 hentry
    obtain ⟨v', q2, hx, hentry⟩ := bind_eq_some.1 hentry
    obtain ⟨hkv, rfl⟩ := pure_eq_some.1 hentry
    cases hkv
    rw [hke.back trivial] at hu
    cases hu
    have hfirst : (addEntries (n.insertIfNew e.1 v) l'')[e.1]? = some v := by
      rw [getElem?_addEntries_of_mem (Std.ExtTreeMap.mem_insertIfNew.2 (.inl Std.ReflCmp.compare_self)),
        getElem?_insertIfNew_self (hnew e List.mem_cons_self)]
    have hl' : addEntries (n.insertIfNew e.1 v) l'' = m := hl
    rw [hl', hm e List.mem_cons_self] at hfirst
    cases hfirst
    obtain ⟨hok, rfl⟩ := hve.step hx
    intro f hf
    obtain rfl | hf := List.mem_cons.1 hf
    · exact hok
    · refine ih (fun e he => hk e (List.mem_cons_of_mem _ he)) (fun e he => hv e (List.mem_cons_of_mem _ he)) hnd ?_
        (fun e he => hm e (List.mem_cons_of_mem _ he)) hrest hl' f hf
      intro b hb hmem
      obtain hc | hc := Std.ExtTreeMap.mem_insertIfNew.1 hmem
      · rw [Std.LawfulEqCmp.compare_eq_iff_eq] at hc
        exact hne (List.mem_map.2 ⟨b, hb, hc.symm⟩)
      · exact hnew b (List.mem_cons_of_mem _ hb) hc

theorem reads_packMap (hM : 0 < C.M) {m : Std.ExtTreeMap κ ν cmp} (hk : ∀ e ∈ m.toList, Reads u (w e.1) e.1 True)
    (hv : ∀ e ∈ m.toList, Reads x (y e.2) e.2 (ok e.2)) :
    Reads (unpackMap cmp C u x) (packMap C w y m) m (m.size < C.M ∧ ∀ e ∈ m.toList, ok e.2) := by
  refine ⟨?_, ?_⟩
  · rintro ⟨hsize, hok⟩ r
    have hl : Reads (unpackList C (unpackEntry u x)) (packList C (packEntry w y) m.toList) m.toList
        (m.toList.length < C.M ∧ ∀ e ∈ m.toList, ok e.2) :=
      reads_packList hM fun e he => reads_packEntry (hk e he) (hv e he)
    rw [Std.ExtTreeMap.length_toList] at hl
    refine bind_eq_some.2 ⟨_, _, hl.back ⟨hsize, hok⟩ r, ?_⟩
    rw [addEntries_toList]
    rfl
  · intro r t hs
    obtain ⟨l, q, hread, hp⟩ := bind_eq_some.1 hs
    obtain ⟨he, -⟩ := pure_eq_some.1 hp
    have hread := unpackList_append hread
    have hlen := length_of_readList hread
    rw [Std.ExtTreeMap.length_toList] at hlen hread
    have hsize : m.size < C.M := by
      have h1 := size_addEntries l (∅ : Std.ExtTreeMap κ ν cmp)
      rw [← he, hlen] at h1
      have h2 := Nat.mod_lt m.size hM
      have h3 : (∅ : Std.ExtTreeMap κ ν cmp).size = 0 := Std.ExtTreeMap.size_empty
      omega
    rw [Nat.mod_eq_of_lt hsize, ← Std.ExtTreeMap.length_toList] at hread
    refine ⟨hsize, entries_ok hk hv (keys_nodup m) (by simp) ?_ hread he.symm⟩
    intro e he
    exact Std.ExtTreeMap.mem_toList_iff_getElem?_eq_some.1 he

/-- A map whose values always come back. -/
theorem reads_packMap_always (hM : 0 < C.M) {m : Std.ExtTreeMap κ ν cmp} (hk : ∀ e ∈ m.toList, Reads u (w e.1) e.1 True)
    (hv : ∀ e ∈ m.toList, Reads x (y e.2) e.2 True) : Reads (unpackMap cmp C u x) (packMap C w y m) m (m.size < C.M) := by
  refine (@reads_packMap _ _ _ _ _ _ _ _ _ _ _ (fun _ => True) hM m hk hv).congr ?_
  constructor
  · intro h
    exact h.1
  · intro h
    exact ⟨h, fun _ _ => trivial⟩

/-- Entries under different keys are those of the map. -/
theorem mem_toList_addEntries {l : List (κ × ν)} (hnd : (l.map (·.1)).Nodup) (e : κ × ν) :
    e ∈ (addEntries (∅ : Std.ExtTreeMap κ ν cmp) l).toList ↔ e ∈ l := by
  rw [Std.ExtTreeMap.mem_toList_iff_getElem?_eq_some, getElem?_addEntries hnd (by simp), Std.ExtTreeMap.getElem?_empty, Option.or_none,
    Option.map_eq_some_iff]
  have hkey {f : κ × ν} (hf : (l.find? fun f => cmp f.1 e.1 = .eq) = some f) : f.1 = e.1 := by
    have := List.find?_some hf
    simpa using this
  constructor
  · rintro ⟨f, hf, hv⟩
    rw [← Prod.ext (hkey hf) hv]
    exact List.mem_of_find?_eq_some hf
  · intro he
    cases hf : l.find? fun f => cmp f.1 e.1 = .eq with
    | none => exact absurd (List.find?_eq_none.1 hf e he) (by simp)
    | some f =>
      have hfe := List.inj_on_of_nodup_map hnd (List.mem_of_find?_eq_some hf) he (hkey hf)
      exact ⟨f, rfl, by rw [hfe]⟩

/-- A map made of entries in the order of their keys has just these. -/
theorem toList_addEntries {l : List (κ × ν)} (h : l.Pairwise fun a b => cmp a.1 b.1 = .lt) :
    (addEntries (∅ : Std.ExtTreeMap κ ν cmp) l).toList = l := by
  have hnd {l : List (κ × ν)} (h : l.Pairwise fun a b => cmp a.1 b.1 = .lt) : (l.map (·.1)).Nodup := by
    rw [List.nodup_iff_pairwise_ne, List.pairwise_map]
    refine h.imp ?_
    intro a b hab he
    have hself : cmp b.1 b.1 = .eq := Std.ReflCmp.compare_self
    rw [he, hself] at hab
    cases hab
  have hlt := Std.ExtTreeMap.ordered_keys_toList (t := addEntries (∅ : Std.ExtTreeMap κ ν cmp) l)
  refine List.Perm.eq_of_pairwise ?_ hlt h ?_
  · intro a b _ _ hab hba
    have hswap : cmp a.1 b.1 = (cmp b.1 a.1).swap := Std.OrientedCmp.eq_swap
    rw [hswap, hba] at hab
    cases hab
  · rw [List.perm_ext_iff_of_nodup (hnd hlt).of_map (hnd h).of_map]
    exact mem_toList_addEntries (hnd h)

end Tree

/-! ## Nested values -/

/-- A reader of nested values, with as many levels as the stream has tokens: where each level takes a token there are no more. -/
def nested (u : Nat → Reader β α) : Reader β α := fun s => u s.length s

theorem Reads.nested {u : Nat → Reader β α} {p : List β} {v : α} {ok : Prop} (h : ∀ n, p.length ≤ n → Reads (u n) p v ok) :
    Reads (nested u) p v ok := by
  have hlen (r : List β) : p.length ≤ (p ++ r).length := by
    rw [List.length_append]
    omega
  refine ⟨?_, ?_⟩
  · intro hok r
    exact (h _ (hlen r)).back hok r
  · intro r s hs
    exact (h _ (hlen r)).only r s hs

end Codec
