import Grain.Lemmas.Convert

/-!
# Values come back as they went out

Which values that leave a contract are read back unchanged: as JSON by `getGranule`, and as script by the caller of a method.
-/

namespace Grain

open Convert

/-- A value that is accepted comes back: its text is JSON for an equal value, and the caller of a contract gets an equal value
with nothing else evaluated. -/
def Faithful (inherited : Nat → Text → Text) (e : Exit) (v : Jsi) : Prop :=
  accepts inherited e v = true →
    (∃ w, granuleValue (serialize inherited v 0) = some w ∧ Same v w) ∧
    (e = .call → ∃ w, convertValue inherited v = .value w ∧ Same v w)

/-- A name that the text of an object gives back: UTF-8 with nothing to escape, and not `__proto__`. -/
def PlainName (k : Text) : Prop := (isUtf8 k = true ∧ Unescaped k) ∧ k ≠ protoName

/-- Data with plain names and strings of UTF-8; in the result of a call no number is the smallest `int64_t`. -/
def Representable (e : Exit) (v : Jsi) : Prop :=
  All PlainName (isUtf8 · = true) (fun n => e = .call → n ≠ Int64.minValue) v

theorem PlainName.no_nul {k : Text} (h : PlainName k) : '\x00' ∉ k := by
  intro hc
  have := (h.1.2 _ hc).1
  revert this
  decide

theorem accepts_serializable {inh : Nat → Text → Text} {e : Exit} {v : Jsi} (h : accepts inh e v = true) :
    '<' ∉ serialize inh v 0 := by
  have h1 : isSerializable (serialize inh v 0) = true := by
    cases e with
    | granule =>
      simp only [accepts, Bool.and_eq_true] at h
      exact h.1.2
    | emit => exact h
    | call => exact h
  simpa [isSerializable] using h1

section
variable {inh : Nat → Text → Text} {v : Jsi} (hd : v.Distinct) (hs : '<' ∉ serialize inh v 0)
include hd hs

/-- A representable value is what `getGranule` makes of its text. -/
theorem granuleValue_serialize (hv : All PlainName (isUtf8 · = true) (fun _ => True) v) :
    granuleValue (serialize inh v 0) = some (canon v) := by
  have h1 := serialize_eq inh (hv.imp (fun _ h => h.no_nul) (fun _ _ => trivial) fun _ h => h) hd hs
  have h2 : All (fun k => isUtf8 k = true ∧ Unescaped k) (isUtf8 · = true) (fun _ => True) (canon v) :=
    all_canon.2 (hv.imp (fun _ h => h.1) (fun _ h => h) fun _ h => h)
  have h3 := readsBack reads_json h2 (2 * (plainText (canon v)).length + 2) []
    (by intro c hc; cases hc) (by omega)
  rw [List.append_nil] at h3
  have h4 : jsonParse (plainText (canon v)) = some (litOf jsonNum (canon v)) := by
    rw [jsonParse, h3]
    rfl
  rw [h1, granuleValue, h4, Option.bind_some]
  exact jsonToJsi_litOf (hv.imp (fun _ h => ⟨h.no_nul, h.2⟩) (fun _ _ => trivial) fun _ h => h) hd

/-- The text of a representable value is a literal for the caller, which fails only on a number that is too large. -/
theorem convertValue_eq (hv : All PlainName (isUtf8 · = true) (fun _ => True) v) :
    convertValue inh v = (evalLit (litOf scriptNum (canon v))).elim .throws .value := by
  have h1 := serialize_eq inh (hv.imp (fun _ h => h.no_nul) (fun _ _ => trivial) fun _ h => h) hd hs
  have h2 : All (fun k => isUtf8 k = true ∧ Unescaped k) (isUtf8 · = true) (fun _ => True) (canon v) :=
    all_canon.2 (hv.imp (fun _ h => h.1) (fun _ h => h) fun _ h => h)
  have h3 := readsBack reads_script h2 (2 * (plainText (canon v) ++ [')']).length + 2) [')']
    (ends_cons _ (by simp)) (by simp; omega)
  have h4 : isSerializable (serialize inh v 0) = true := by simpa [isSerializable] using hs
  rw [convertValue]
  simp only [h4, if_true]
  rw [h1, List.cons_append, evalText, h3]
  simp only [skipSpace_cons (show isSpace ')' = false by decide), if_true]
  cases evalLit (litOf scriptNum (canon v)) <;> rfl

/-- A value that JSON gives back has names without escapes. -/
theorem unescaped_of_granuleValue {w : Jsi} (h : granuleValue (serialize inh v 0) = some w) (he : Same v w) :
    All PlainName (isUtf8 · = true) (fun _ => True) v := by
  obtain ⟨l, hl, hw⟩ := Option.bind_eq_some_iff.1 h
  obtain ⟨⟨l', r⟩, hr, hl⟩ := Option.bind_eq_some_iff.1 hl
  dsimp only at hl
  split_ifs at hl
  cases hl
  have h1 := (read_marks _).1 _ _ _ hr
  obtain ⟨h2, h3⟩ := jsonToJsi_some h1.2 hw
  have h4 : FromJson v := all_canon.1 (he ▸ all_canon.2 h3)
  -- the text has no more marks than the value needs, and what was read needs no more than the text has
  have h5 := serialize_eq inh (h4.imp (fun _ h => h.1.1) (fun _ _ => trivial) fun _ h => h) hd hs
  have h6 := marks_plainText (all_canon.2 h4)
  have h7 : (litOf jsonNum (canon v)).need = (litOf jsonNum w).need := by
    rw [he, need_canon]
  have h8 : All Unescaped (fun _ => True) (fun _ => True) v := by
    refine all_canon.1 (h6.2 ?_)
    have := h1.1
    rw [h5] at this
    omega
  exact (h4.and h8).imp (fun _ h => ⟨⟨h.1.2, h.2⟩, h.1.1.2⟩) (fun _ h => h.1) fun _ _ => trivial

end

/-- A value comes back from a granule, an event or a call exactly if it is rejected or representable. -/
theorem value_fidelity (inherited : Nat → Text → Text) (e : Exit) (v : JsiValue) :
    Faithful inherited e v.val ↔ (accepts inherited e v.val = true → Representable e v.val) := by
  obtain ⟨v, hd⟩ := v
  constructor
  · intro h ha
    have hs := accepts_serializable ha
    obtain ⟨⟨w, hw, he⟩, hc⟩ := h ha
    have h1 := unescaped_of_granuleValue hd hs hw he
    cases e with
    | granule => exact h1.imp (fun _ h => h) (fun _ h => h) fun _ _ e => by cases e
    | emit => exact h1.imp (fun _ h => h) (fun _ h => h) fun _ _ e => by cases e
    | call =>
      obtain ⟨u, hu, -⟩ := hc rfl
      rw [convertValue_eq hd hs h1] at hu
      have h2 : (evalLit (litOf scriptNum (canon v))).isSome := by
        cases hl : evalLit (litOf scriptNum (canon v)) with
        | none => rw [hl] at hu; cases hu
        | some _ => rfl
      exact (all_canon.1 (all_of_evalLit (all_canon.2 h1) h2)).imp (fun _ h => h) (fun _ h => h) fun _ h _ => h.2
  · intro h ha
    have hs := accepts_serializable ha
    have hr := h ha
    have h1 : All PlainName (isUtf8 · = true) (fun _ => True) v := hr.imp (fun _ h => h) (fun _ h => h) fun _ _ => trivial
    have hc : Same v (canon v) := (canon_canon v).symm
    refine ⟨⟨canon v, granuleValue_serialize hd hs h1, hc⟩, fun he => ⟨canon v, ?_, hc⟩⟩
    subst he
    rw [convertValue_eq hd hs h1, evalLit_litOf (hr.imp (fun _ h => h.2) (fun _ _ => trivial) fun _ h => h rfl) hd]
    rfl

/-- Prototypes in which nothing is found. -/
def noProto (depth : Nat) (_ : Text) : Text := withinDepth depth undefinedText

/-- A name with a quote in it leaves a text that is no JSON. -/
theorem value_fidelity_false : ¬ ∀ (inherited : Nat → Text → Text) (e : Exit) (v : JsiValue), Faithful inherited e v.val := by
  intro h
  let v : JsiValue := ⟨.obj [(['a', '"', 'b'], .int 1)], by rw [Jsi.distinct_obj]; simp [Jsi.Distinct]⟩
  have h1 : accepts noProto .granule v.val = true := by decide +kernel
  have h2 : granuleValue (serialize noProto v.val 0) = none := by decide +kernel
  obtain ⟨⟨w, hw, -⟩, -⟩ := h noProto .granule v h1
  rw [h2] at hw
  cases hw

end Grain
