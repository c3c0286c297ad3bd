import Grain.IoBuffer
import Grain.Lib.Format

/-!
# Reading with a position, and containers

An `inBuffer` is its bytes and `out_pos`. `get_PN` throws at the end of the bytes, `get_PN_nothrow` sets `success`. The container
operators are templates: `Nesting` says how they are put together, down to types that come back by themselves.
-/

namespace Grain

open Codec (Reader Reads Format Yields)

/-- `inBuffer`. -/
structure InBuffer where
  data : Buffer
  outPos : Nat

namespace InBuffer

/-- `get_8`; that it throws is `none`. -/
def get8 (b : InBuffer) : Option (Char × InBuffer) :=
  match b.data[b.outPos]? with
  | none => none
  | some c => some (c, { b with outPos := b.outPos + 1 })

/-- `get_8_nothrow`: the byte, `success`, and the buffer. -/
def get8NoThrow (b : InBuffer) : Char × Bool × InBuffer :=
  match b.data[b.outPos]? with
  | none => (Char.ofNat 0, false, b)
  | some c => (c, true, { b with outPos := b.outPos + 1 })

/-- What the loops do with a byte: `NN<<=7; NN|=c&0x7F`. -/
def shift (nn : Nat) (c : Char) : Nat := (nn * 128 + c.toNat % 128) % 2 ^ 64

theorem lt_of_get8 {b b' : InBuffer} {c : Char} (h : b.get8 = some (c, b')) :
    b'.data = b.data ∧ b.outPos < b.data.length ∧ b'.outPos = b.outPos + 1 := by
  unfold get8 at h
  split at h
  · cases h
  · rename_i hc
    cases h
    exact ⟨rfl, (List.getElem?_eq_some_iff.1 hc).1, rfl⟩

/-- The loop of `get_PN`. -/
def getPNLoop (nn : Nat) (b : InBuffer) : Option (Nat × InBuffer) :=
  match _h : b.get8 with
  | none => none
  | some (c, b') => if c.toNat < 0x80 then some (shift nn c, b') else getPNLoop (shift nn c) b'
termination_by b.data.length - b.outPos
decreasing_by
  obtain ⟨h1, h2, h3⟩ := lt_of_get8 _h
  rw [h1, h3]
  omega

/-- The loop of `get_PN_nothrow`. -/
def getPNNoThrowLoop (nn : Nat) (b : InBuffer) : Nat × Bool × InBuffer :=
  match _h : b.get8NoThrow with
  | (c, success, b') =>
    if _hs : success = false then (0, false, b')
    else if c.toNat < 0x80 then (shift nn c, true, b') else getPNNoThrowLoop (shift nn c) b'
termination_by b.data.length - b.outPos
decreasing_by
  unfold get8NoThrow at _h
  split at _h
  · cases _h
    exact absurd rfl _hs
  · rename_i hc
    cases _h
    have := (List.getElem?_eq_some_iff.1 hc).1
    dsimp only
    omega

/-- `get_PN`. -/
def getPN (b : InBuffer) : Option (Nat × InBuffer) := getPNLoop 0 b

/-- `get_PN_nothrow`. -/
def getPNNoThrow (b : InBuffer) : Nat × Bool × InBuffer := getPNNoThrowLoop 0 b

end InBuffer

/-! ## Containers -/

theorem yields_elements : Yields elements.read fun n => n < elements.M := by
  intro s n t h
  obtain ⟨m, q, -, hp⟩ := Codec.bind_eq_some.1 h
  rw [(Codec.pure_eq_some.1 hp).1]
  exact Nat.mod_lt _ (by decide)

/-- The order of `std::string`. -/
def compareStrings (a b : { s : String // Sized s }) : Ordering := compare a.1 b.1

instance : Std.TransCmp compareStrings where
  eq_swap := Std.OrientedOrd.eq_swap (α := String)
  isLE_trans := Std.TransOrd.isLE_trans (α := String)

theorem yields_getPN : Yields getPN fun n => n < 2 ^ 64 := by
  have hloop : ∀ s acc, ∀ n t, getGroups acc s = some (n, t) → n < 2 ^ 64 := by
    intro s
    induction s with
    | nil =>
      intro acc n t h
      cases h
    | cons c s ih =>
      intro acc n t h
      rw [getGroups] at h
      split at h
      · cases h
        exact Nat.mod_lt _ (by decide)
      · exact ih _ n t h
  intro s n t h
  exact hloop s 0 n t h

theorem yields_getPSTR : Yields getPSTR Sized := by
  intro s v t h
  obtain ⟨n, q, hn, hb⟩ := Codec.bind_eq_some.1 h
  have hlt := yields_getPN s n q hn
  unfold getBytes at hb
  split at hb
  · rename_i hle
    cases hb
    have hlen : (String.ofList (q.take n)).length = n := by
      rw [String.length_ofList, List.length_take]
      omega
    unfold Sized
    omega
  · cases hb

/-- `get_PSTR` as the reader of a value. -/
def getSized : Unpack { s : String // Sized s } := fun b =>
  match h : getPSTR b with
  | none => none
  | some (s, r) => some (⟨s, yields_getPSTR b s r h⟩, r)

theorem getSized_append (s : { s : String // Sized s }) (r : Buffer) : getSized (putPSTR s.1 ++ r) = some (s, r) := by
  have hread := (reads_getPSTR s.2).back trivial r
  unfold getSized
  split
  · rename_i h
    rw [hread] at h
    cases h
  · rename_i h
    rw [hread] at h
    cases h
    rfl

/-- `std::string`. -/
def stringFormat : Format Char :=
  Format.total { s : String // Sized s } compareStrings (fun s => putPSTR s.1) getSized getSized_append

/-- A type that is written and read: a type whose values come back, or a container of such types. -/
inductive Nesting : Type 1 where
  | base (F : Format Char) (h : ∀ v, F.ok v)
  | string
  | pair (t1 t2 : Nesting)
  | vector (t : Nesting)
  | list (t : Nesting)
  | deque (t : Nesting)
  | set (t : Nesting)
  | map (t1 t2 : Nesting)

/-- The container operators `<<` and `>>`. -/
def Nesting.format : Nesting → Format Char
  | .base F _ => F
  | .string => stringFormat
  | .pair t1 t2 => t1.format.pair t2.format
  | .vector t => t.format.list elements yields_elements
  | .list t => t.format.list elements yields_elements
  | .deque t => t.format.list elements yields_elements
  | .set t => t.format.set elements yields_elements
  | .map t1 t2 => t1.format.map elements yields_elements t2.format

/-- The values of a type. -/
abbrev Nesting.Value (t : Nesting) : Type := t.format.Carrier

/-- Every container in the value, at any depth, has fewer than `2 ^ 32` elements. -/
def Nesting.Small : (t : Nesting) → t.Value → Prop
  | .base _ _ => fun _ => True
  | .string => fun _ => True
  | .pair t1 t2 => fun v : t1.Value × t2.Value => t1.Small v.1 ∧ t2.Small v.2
  | .vector t => fun l : List t.Value => l.length < 2 ^ 32 ∧ ∀ a ∈ l, t.Small a
  | .list t => fun l : List t.Value => l.length < 2 ^ 32 ∧ ∀ a ∈ l, t.Small a
  | .deque t => fun l : List t.Value => l.length < 2 ^ 32 ∧ ∀ a ∈ l, t.Small a
  | .set t => fun s : Codec.Sorted t.format.cmp => s.items.length < 2 ^ 32 ∧ ∀ a ∈ s.items, t.Small a
  | .map t1 t2 => fun m : Codec.Sorted (Codec.through (Prod.fst : t1.Value × t2.Value → t1.Value) t1.format.cmp) =>
    m.items.length < 2 ^ 32 ∧ ∀ e ∈ m.items, t1.Small e.1 ∧ t2.Small e.2

end Grain
