import Mathlib

/-!
# Programs over a signature of operations

A program is a tree: it has ended with a value, it has stopped with an error, or it asks for an operation and continues with
the answer. An interpreter gives each operation its answer and its effect on a state; `run` is the program under it. The
operations a program may ask for are a property of the tree (`Safe`), the operations a run did ask for one of the tree and the
state it started in (`Along`); the rules below turn what one operation keeps into what a whole run keeps.
-/

/-- A program over the operations `Op`, each answered by a value of `Resp o`, with errors in `ε`. -/
inductive Prog (Op : Type) (Resp : Op → Type) (ε α : Type) : Type
  | ret (a : α)
  | stop (e : ε)
  | op (o : Op) (k : Resp o → Prog Op Resp ε α)

namespace Prog

variable {Op : Type} {Resp : Op → Type} {ε α β σ : Type}

/-- Continue with `f` where the first program ends with a value; an error is passed on. -/
def bind : Prog Op Resp ε α → (α → Prog Op Resp ε β) → Prog Op Resp ε β
  | .ret a, f => f a
  | .stop e, _ => .stop e
  | .op o k, f => .op o fun r => (k r).bind f

/-- Continue with `h` where the program stops with an error. -/
def handle : Prog Op Resp ε α → (ε → Prog Op Resp ε α) → Prog Op Resp ε α
  | .ret a, _ => .ret a
  | .stop e, h => h e
  | .op o k, h => .op o fun r => (k r).handle h

instance : Monad (Prog Op Resp ε) where
  pure := .ret
  bind := .bind

instance : MonadExceptOf ε (Prog Op Resp ε) where
  throw := .stop
  tryCatch := .handle

/-- Ask for one operation. -/
def ask (o : Op) : Prog Op Resp ε (Resp o) := .op o .ret

/-- End with the value of an `Except`, or stop with its error. -/
def ofExcept : Except ε α → Prog Op Resp ε α
  | .ok a => .ret a
  | .error e => .stop e

/-- The run of a program under an interpreter: its value or error, and the state it leaves. -/
def run (exec : (o : Op) → σ → Resp o × σ) : Prog Op Resp ε α → σ → Except ε α × σ
  | .ret a, s => (.ok a, s)
  | .stop e, s => (.error e, s)
  | .op o k, s => run exec (k (exec o s).1) (exec o s).2

/-- Sequences associate. -/
theorem bind_bind {δ : Type} (m : Prog Op Resp ε α) (f : α → Prog Op Resp ε β) (g : β → Prog Op Resp ε δ) :
    m >>= f >>= g = m >>= fun a => f a >>= g := by
  change (m.bind f).bind g = m.bind fun a => (f a).bind g
  induction m with
  | ret a => rfl
  | stop e => rfl
  | op o k ih => exact congrArg (Prog.op o) (funext ih)

/-! ## Running the constructs -/

section Run

variable (exec : (o : Op) → σ → Resp o × σ)

@[simp] theorem run_ret (a : α) (s : σ) : run exec (.ret a : Prog Op Resp ε α) s = (.ok a, s) := rfl

@[simp] theorem run_stop (e : ε) (s : σ) : run exec (.stop e : Prog Op Resp ε α) s = (.error e, s) := rfl

@[simp] theorem run_pure (a : α) (s : σ) : run exec (pure a : Prog Op Resp ε α) s = (.ok a, s) := rfl

@[simp] theorem run_throw (e : ε) (s : σ) : run exec (throw e : Prog Op Resp ε α) s = (.error e, s) := rfl

@[simp] theorem run_ask (o : Op) (s : σ) :
    run exec (ask o : Prog Op Resp ε (Resp o)) s = (.ok (exec o s).1, (exec o s).2) := rfl

@[simp] theorem run_ofExcept (x : Except ε α) (s : σ) : run exec (ofExcept x : Prog Op Resp ε α) s = (x, s) := by
  cases x <;> rfl

/-- A sequence runs its second part from where the first ended, unless the first stopped. -/
theorem run_bind (m : Prog Op Resp ε α) (f : α → Prog Op Resp ε β) (s : σ) :
    run exec (m >>= f) s =
      match run exec m s with
      | (.ok a, t) => run exec (f a) t
      | (.error e, t) => (.error e, t) := by
  change run exec (m.bind f) s = _
  induction m generalizing s with
  | ret a => rfl
  | stop e => rfl
  | op o k ih => exact ih (exec o s).1 (exec o s).2

/-- A handled program runs the handler from where the program stopped. -/
theorem run_handle (m : Prog Op Resp ε α) (h : ε → Prog Op Resp ε α) (s : σ) :
    run exec (m.handle h) s =
      match run exec m s with
      | (.ok a, t) => (.ok a, t)
      | (.error e, t) => run exec (h e) t := by
  induction m generalizing s with
  | ret a => rfl
  | stop e => rfl
  | op o k ih => exact ih (exec o s).1 (exec o s).2

/-- A sequence whose first part ends with a value. -/
theorem run_bind_ok {m : Prog Op Resp ε α} {f : α → Prog Op Resp ε β} {s t : σ} {a : α}
    (h : run exec m s = (.ok a, t)) : run exec (m >>= f) s = run exec (f a) t := by
  rw [run_bind, h]

/-- A sequence whose first part stops. -/
theorem run_bind_error {m : Prog Op Resp ε α} {f : α → Prog Op Resp ε β} {s t : σ} {e : ε}
    (h : run exec m s = (.error e, t)) : run exec (m >>= f) s = (.error e, t) := by
  rw [run_bind, h]

/-- A sequence that ended with a value ran its first part to a value. -/
theorem run_bind_eq_ok {m : Prog Op Resp ε α} {f : α → Prog Op Resp ε β} {s u : σ} {b : β}
    (h : run exec (m >>= f) s = (.ok b, u)) : ∃ a t, run exec m s = (.ok a, t) ∧ run exec (f a) t = (.ok b, u) := by
  rw [run_bind] at h
  rcases hm : run exec m s with ⟨_ | a, t⟩ <;> rw [hm] at h
  · nomatch h
  · exact ⟨a, t, rfl, h⟩

end Run

/-! ## The operations of a program -/

/-- Whatever answers the program gets, as long as they satisfy `R`, every operation it asks for satisfies `P`, and a value it
ends with satisfies `Q`. -/
def Safe (P : Op → Prop) (R : (o : Op) → Resp o → Prop) : Prog Op Resp ε α → (α → Prop) → Prop
  | .ret a, Q => Q a
  | .stop _, _ => True
  | .op o k, Q => P o ∧ ∀ r, R o r → Safe P R (k r) Q

/-- Every operation the run from `s` asks for satisfies `P` in the state it is asked in. -/
def Along (exec : (o : Op) → σ → Resp o × σ) (P : Op → σ → Prop) : Prog Op Resp ε α → σ → Prop
  | .ret _, _ => True
  | .stop _, _ => True
  | .op o k, s => P o s ∧ Along exec P (k (exec o s).1) (exec o s).2

instance decidableAlong {exec : (o : Op) → σ → Resp o × σ} {P : Op → σ → Prop} [∀ o s, Decidable (P o s)] :
    (m : Prog Op Resp ε α) → (s : σ) → Decidable (Along exec P m s)
  | .ret _, _ => isTrue trivial
  | .stop _, _ => isTrue trivial
  | .op o k, s =>
    have : Decidable (Along exec P (k (exec o s).1) (exec o s).2) := decidableAlong _ _
    inferInstanceAs (Decidable (P o s ∧ _))

section Safe

variable {P P' : Op → Prop} {R : (o : Op) → Resp o → Prop}

@[simp] theorem safe_ret (a : α) (Q : α → Prop) : Safe P R (.ret a : Prog Op Resp ε α) Q ↔ Q a := Iff.rfl

@[simp] theorem safe_stop (e : ε) (Q : α → Prop) : Safe P R (.stop e : Prog Op Resp ε α) Q ↔ True := Iff.rfl

@[simp] theorem safe_pure (a : α) (Q : α → Prop) : Safe P R (pure a : Prog Op Resp ε α) Q ↔ Q a := Iff.rfl

@[simp] theorem safe_ask (o : Op) (Q : Resp o → Prop) :
    Safe P R (ask o : Prog Op Resp ε (Resp o)) Q ↔ P o ∧ ∀ r, R o r → Q r := Iff.rfl

@[simp] theorem safe_ofExcept (x : Except ε α) (Q : α → Prop) :
    Safe P R (ofExcept x : Prog Op Resp ε α) Q ↔ ∀ a, x = .ok a → Q a := by
  cases x with
  | error e => simp [ofExcept]
  | ok a => simp [ofExcept]

/-- A sequence is safe when its first part is, with values from which the second part is. -/
@[simp] theorem safe_bind (m : Prog Op Resp ε α) (f : α → Prog Op Resp ε β) (Q : β → Prop) :
    Safe P R (m >>= f) Q ↔ Safe P R m fun a => Safe P R (f a) Q := by
  change Safe P R (m.bind f) Q ↔ _
  induction m with
  | ret a => rfl
  | stop e => rfl
  | op o k ih => exact and_congr_right fun _ => forall_congr' fun r => imp_congr_right fun _ => ih r

/-- What a program may ask for, and end with, may be described more loosely. -/
theorem Safe.mono {m : Prog Op Resp ε α} {Q Q' : α → Prop} (h : Safe P R m Q) (hP : ∀ o, P o → P' o)
    (hQ : ∀ a, Q a → Q' a) : Safe P' R m Q' := by
  induction m with
  | ret a => exact hQ a h
  | stop e => trivial
  | op o k ih => exact ⟨hP o h.1, fun r hr => ih r (h.2 r hr)⟩

theorem Safe.post {m : Prog Op Resp ε α} {Q Q' : α → Prop} (h : Safe P R m Q) (hQ : ∀ a, Q a → Q' a) : Safe P R m Q' :=
  h.mono (fun _ ho => ho) hQ

/-- A handled program is safe when it and its handler are. -/
theorem safe_handle {m : Prog Op Resp ε α} {h : ε → Prog Op Resp ε α} {Q : α → Prop} (hm : Safe P R m Q)
    (hh : ∀ e, Safe P R (h e) Q) : Safe P R (m.handle h) Q := by
  induction m with
  | ret a => exact hm
  | stop e => exact hh e
  | op o k ih => exact ⟨hm.1, fun r hr => ih r (hm.2 r hr)⟩

/-- A sequence of programs, one for each element of a list. -/
theorem safe_forM {γ : Type} {l : List γ} {f : γ → Prog Op Resp ε PUnit} (h : ∀ x ∈ l, Safe P R (f x) fun _ => True) :
    Safe P R (l.forM f) fun _ => True := by
  induction l with
  | nil => trivial
  | cons x l ih =>
    refine (safe_bind _ _ _).2 ((h x List.mem_cons_self).post fun _ _ => ?_)
    exact ih fun y hy => h y (List.mem_cons_of_mem x hy)

end Safe

/-! ## How a program ends -/

/-- Whatever answers the program gets, as long as they satisfy `R`, it ends with a value in `Q` or stops with an error in `E`. -/
def Ends (R : (o : Op) → Resp o → Prop) (E : ε → Prop) : Prog Op Resp ε α → (α → Prop) → Prop
  | .ret a, Q => Q a
  | .stop e, _ => E e
  | .op o k, Q => ∀ r, R o r → Ends R E (k r) Q

section Ends

variable {R : (o : Op) → Resp o → Prop} {E : ε → Prop}

@[simp] theorem ends_ret (a : α) (Q : α → Prop) : Ends R E (.ret a : Prog Op Resp ε α) Q ↔ Q a := Iff.rfl

@[simp] theorem ends_stop (e : ε) (Q : α → Prop) : Ends R E (.stop e : Prog Op Resp ε α) Q ↔ E e := Iff.rfl

@[simp] theorem ends_pure (a : α) (Q : α → Prop) : Ends R E (pure a : Prog Op Resp ε α) Q ↔ Q a := Iff.rfl

@[simp] theorem ends_ask (o : Op) (Q : Resp o → Prop) :
    Ends R E (ask o : Prog Op Resp ε (Resp o)) Q ↔ ∀ r, R o r → Q r := Iff.rfl

@[simp] theorem ends_ofExcept (x : Except ε α) (Q : α → Prop) :
    Ends R E (ofExcept x : Prog Op Resp ε α) Q ↔ (∀ a, x = .ok a → Q a) ∧ ∀ e, x = .error e → E e := by
  cases x with
  | error e => simp [ofExcept]
  | ok a => simp [ofExcept]

/-- A sequence ends as its second part does, from the values of the first. -/
@[simp] theorem ends_bind (m : Prog Op Resp ε α) (f : α → Prog Op Resp ε β) (Q : β → Prop) :
    Ends R E (m >>= f) Q ↔ Ends R E m fun a => Ends R E (f a) Q := by
  change Ends R E (m.bind f) Q ↔ _
  induction m with
  | ret a => rfl
  | stop e => rfl
  | op o k ih => exact forall_congr' fun r => imp_congr_right fun _ => ih r

theorem Ends.post {m : Prog Op Resp ε α} {Q Q' : α → Prop} (h : Ends R E m Q) (hQ : ∀ a, Q a → Q' a) : Ends R E m Q' := by
  induction m with
  | ret a => exact hQ a h
  | stop e => exact h
  | op o k ih => exact fun r hr => ih r (h r hr)

/-- A handled program: the handler meets only the errors in `E`. -/
theorem ends_handle {m : Prog Op Resp ε α} {h : ε → Prog Op Resp ε α} {Q : α → Prop} (hm : Ends R E m Q)
    (hh : ∀ e, E e → Ends R E (h e) Q) : Ends R E (m.handle h) Q := by
  induction m with
  | ret a => exact hm
  | stop e => exact hh e hm
  | op o k ih => exact fun r hr => ih r (hm r hr)

/-- A sequence of programs, one for each element of a list. -/
theorem ends_forM {γ : Type} {l : List γ} {f : γ → Prog Op Resp ε PUnit} (h : ∀ x ∈ l, Ends R E (f x) fun _ => True) :
    Ends R E (l.forM f) fun _ => True := by
  induction l with
  | nil => trivial
  | cons x l ih =>
    refine (ends_bind _ _ _).2 ((h x List.mem_cons_self).post fun _ _ => ?_)
    exact ih fun y hy => h y (List.mem_cons_of_mem x hy)

/-- A run stops only with an error in `E`, if the answers are always in `R`. -/
theorem run_ends {exec : (o : Op) → σ → Resp o × σ} (hR : ∀ o s, R o (exec o s).1) {m : Prog Op Resp ε α} {Q : α → Prop}
    (h : Ends R E m Q) {s : σ} {e : ε} (he : (run exec m s).1 = .error e) : E e := by
  induction m generalizing s with
  | ret a => cases he
  | stop e' =>
    cases he
    exact h
  | op o k ih => exact ih _ (h _ (hR o s)) he

end Ends

/-! ## What a run keeps -/

section Along

variable {exec : (o : Op) → σ → Resp o × σ} {P : Op → σ → Prop}

/-- The operations of a sequence: those of its first part, then those of its second, if that is reached. -/
theorem along_bind {m : Prog Op Resp ε α} {f : α → Prog Op Resp ε β} {s : σ} :
    Along exec P (m >>= f) s ↔
      Along exec P m s ∧ ∀ a t, run exec m s = (.ok a, t) → Along exec P (f a) t := by
  change Along exec P (m.bind f) s ↔ _
  induction m generalizing s with
  | ret a =>
    refine ⟨fun h => ⟨trivial, fun b t hb => ?_⟩, fun h => h.2 a s rfl⟩
    obtain ⟨rfl, rfl⟩ : a = b ∧ s = t := by simpa using hb
    exact h
  | stop e => exact ⟨fun _ => ⟨trivial, fun b t hb => nomatch hb⟩, fun _ => trivial⟩
  | op o k ih =>
    refine ⟨fun h => ⟨⟨h.1, (ih _).1 h.2 |>.1⟩, ((ih _).1 h.2).2⟩, fun h => ⟨h.1.1, (ih _).2 ⟨h.1.2, h.2⟩⟩⟩

/-- The invariant rule for the operations of one run: what each of them keeps, the run keeps. -/
theorem run_inv {I : σ → Prop} (hstep : ∀ o s, P o s → I s → I (exec o s).2) {m : Prog Op Resp ε α} {s : σ}
    (h : Along exec P m s) (hI : I s) : I (run exec m s).2 := by
  induction m generalizing s with
  | ret a => exact hI
  | stop e => exact hI
  | op o k ih => exact ih _ h.2 (hstep o s h.1 hI)

/-- The invariant rule for a safe program: if the invariant makes the answers satisfy `R`, and the operations in `P` keep the
invariant, then a run keeps it, and ends with a value in `Q` if it ends with one. -/
theorem run_safe {P : Op → Prop} {R : (o : Op) → Resp o → Prop} {I : σ → Prop}
    (hstep : ∀ o s, P o → I s → I (exec o s).2 ∧ R o (exec o s).1) {m : Prog Op Resp ε α} {Q : α → Prop}
    (h : Safe P R m Q) {s : σ} (hI : I s) :
    I (run exec m s).2 ∧ ∀ a, (run exec m s).1 = .ok a → Q a := by
  induction m generalizing s with
  | ret a =>
    refine ⟨hI, fun b hb => ?_⟩
    obtain rfl : a = b := by simpa using hb
    exact h
  | stop e => exact ⟨hI, fun b hb => nomatch hb⟩
  | op o k ih =>
    obtain ⟨h1, h2⟩ := hstep o s h.1 hI
    exact ih _ (h.2 _ h2) h1

/-- What every operation of a safe program satisfies, the operations of its run do, if the answers are always in `R`. -/
theorem along_of_safe {P' : Op → Prop} {R : (o : Op) → Resp o → Prop} (hR : ∀ o s, R o (exec o s).1) (hP : ∀ o s, P' o → P o s)
    {m : Prog Op Resp ε α} {Q : α → Prop} (h : Safe P' R m Q) (s : σ) : Along exec P m s := by
  induction m generalizing s with
  | ret a => trivial
  | stop e => trivial
  | op o k ih => exact ⟨hP o s h.1, ih _ (h.2 _ (hR o s)) _⟩

/-- The invariant rule for a program that is safe whatever is known of the answers, as long as it includes the answers given so
far (`h`): an operation may rely on those, and the invariant may speak of them. -/
theorem run_learned {K : Type} {B : K → Op → Prop} {R : K → (o : Op) → Resp o → Prop} {I : List ((o : Op) × Resp o) → σ → Prop}
    (hstep : ∀ h o s, (∀ k, (∀ a ∈ h, R k a.1 a.2) → B k o) → P o s → I h s → I (⟨o, (exec o s).1⟩ :: h) (exec o s).2)
    {m : Prog Op Resp ε α} {Q : K → α → Prop} {h : List ((o : Op) × Resp o)} {s : σ}
    (hm : ∀ k, (∀ a ∈ h, R k a.1 a.2) → Safe (B k) (R k) m (Q k)) (ha : Along exec P m s) (hI : I h s) :
    ∃ h', I h' (run exec m s).2 := by
  induction m generalizing h s with
  | ret a => exact ⟨h, hI⟩
  | stop e => exact ⟨h, hI⟩
  | op o k ih =>
    refine ih _ (fun x hx => ?_) ha.2 (hstep h o s (fun x hx => (hm x hx).1) ha.1 hI)
    have hold : ∀ a ∈ h, R x a.1 a.2 := fun a ha => hx a (List.mem_cons_of_mem _ ha)
    exact (hm x hold).2 _ (hx _ List.mem_cons_self)

end Along

/-- Every run of the program keeps `I`. -/
def Keeps (exec : (o : Op) → σ → Resp o × σ) (I : σ → Prop) (m : Prog Op Resp ε α) : Prop := ∀ s, I s → I (run exec m s).2

section Keeps

variable {exec : (o : Op) → σ → Resp o × σ} {I : σ → Prop}

theorem Keeps.bind {m : Prog Op Resp ε α} {f : α → Prog Op Resp ε β} (hm : Keeps exec I m) (hf : ∀ a, Keeps exec I (f a)) :
    Keeps exec I (m >>= f) := by
  intro s hs
  have h := hm s hs
  rw [run_bind]
  rcases hr : run exec m s with ⟨_ | a, t⟩ <;> rw [hr] at h
  · exact h
  · exact hf a t h

theorem Keeps.handle {m : Prog Op Resp ε α} {f : ε → Prog Op Resp ε α} (hm : Keeps exec I m) (hf : ∀ e, Keeps exec I (f e)) :
    Keeps exec I (m.handle f) := by
  intro s hs
  have h := hm s hs
  rw [run_handle]
  rcases hr : run exec m s with ⟨e | a, t⟩ <;> rw [hr] at h
  · exact hf e t h
  · exact h

/-- A program keeps what its operations keep. -/
theorem Keeps.of_safe {P : Op → Prop} (hstep : ∀ o s, P o → I s → I (exec o s).2) {m : Prog Op Resp ε α}
    (h : Safe P (fun _ _ => True) m fun _ => True) : Keeps exec I m :=
  fun _ hs => (run_safe (fun o s hP hI => ⟨hstep o s hP hI, trivial⟩) h hs).1

end Keeps

/-! ## What a run notes -/

/-- What the operations of the run from `s` note, in the order they are asked for. -/
def notes {γ : Type} (exec : (o : Op) → σ → Resp o × σ) (note : Op → List γ) : Prog Op Resp ε α → σ → List γ
  | .ret _, _ => []
  | .stop _, _ => []
  | .op o k, s => note o ++ notes exec note (k (exec o s).1) (exec o s).2

section Notes

variable {γ : Type} {exec : (o : Op) → σ → Resp o × σ} {note : Op → List γ}

@[simp] theorem notes_ret (a : α) (s : σ) : notes exec note (.ret a : Prog Op Resp ε α) s = [] := rfl

@[simp] theorem notes_pure (a : α) (s : σ) : notes exec note (pure a : Prog Op Resp ε α) s = [] := rfl

@[simp] theorem notes_stop (e : ε) (s : σ) : notes exec note (.stop e : Prog Op Resp ε α) s = [] := rfl

@[simp] theorem notes_ask (o : Op) (s : σ) : notes exec note (ask o : Prog Op Resp ε (Resp o)) s = note o :=
  List.append_nil _

@[simp] theorem notes_ofExcept (x : Except ε α) (s : σ) : notes exec note (ofExcept x : Prog Op Resp ε α) s = [] := by
  cases x <;> rfl

/-- A sequence whose first part ends with a value notes what both parts do. -/
theorem notes_bind_ok {m : Prog Op Resp ε α} (f : α → Prog Op Resp ε β) {s t : σ} {a : α} (h : run exec m s = (.ok a, t)) :
    notes exec note (m >>= f) s = notes exec note m s ++ notes exec note (f a) t := by
  change notes exec note (m.bind f) s = _
  induction m generalizing s with
  | ret b =>
    obtain ⟨rfl, rfl⟩ : b = a ∧ s = t := by simpa using h
    rfl
  | stop e => cases h
  | op o k ih =>
    change note o ++ notes exec note ((k (exec o s).1).bind f) (exec o s).2 = _
    rw [ih _ h, ← List.append_assoc]
    rfl

/-- A sequence whose first part stops notes what that does. -/
theorem notes_bind_error {m : Prog Op Resp ε α} (f : α → Prog Op Resp ε β) {s t : σ} {e : ε}
    (h : run exec m s = (.error e, t)) : notes exec note (m >>= f) s = notes exec note m s := by
  change notes exec note (m.bind f) s = _
  induction m generalizing s with
  | ret b => cases h
  | stop e => rfl
  | op o k ih => exact congrArg (note o ++ ·) (ih _ h)

/-- A handled program that ends with a value. -/
theorem notes_handle_ok {m : Prog Op Resp ε α} (h : ε → Prog Op Resp ε α) {s t : σ} {a : α} (hr : run exec m s = (.ok a, t)) :
    notes exec note (m.handle h) s = notes exec note m s := by
  induction m generalizing s with
  | ret b => rfl
  | stop e => cases hr
  | op o k ih => exact congrArg (note o ++ ·) (ih _ hr)

/-- A handled program that stops notes what it does and what the handler does. -/
theorem notes_handle_error {m : Prog Op Resp ε α} (h : ε → Prog Op Resp ε α) {s t : σ} {e : ε}
    (hr : run exec m s = (.error e, t)) : notes exec note (m.handle h) s = notes exec note m s ++ notes exec note (h e) t := by
  induction m generalizing s with
  | ret b => cases hr
  | stop e' =>
    obtain ⟨rfl, rfl⟩ : e' = e ∧ s = t := by simpa using hr
    rfl
  | op o k ih =>
    change note o ++ notes exec note ((k (exec o s).1).handle h) (exec o s).2 = _
    rw [ih _ hr, ← List.append_assoc]
    rfl

/-- A second part that notes nothing. -/
theorem notes_bind_left (m : Prog Op Resp ε α) {f : α → Prog Op Resp ε β} (hf : ∀ a t, notes exec note (f a) t = []) (s : σ) :
    notes exec note (m >>= f) s = notes exec note m s := by
  rcases hr : run exec m s with ⟨e | a, t⟩
  · exact notes_bind_error f hr
  · rw [notes_bind_ok f hr, hf, List.append_nil]

/-- A handler that notes nothing. -/
theorem notes_handle_left (m : Prog Op Resp ε α) {h : ε → Prog Op Resp ε α} (hh : ∀ e t, notes exec note (h e) t = []) (s : σ) :
    notes exec note (m.handle h) s = notes exec note m s := by
  rcases hr : run exec m s with ⟨e | a, t⟩
  · rw [notes_handle_error h hr, hh, List.append_nil]
  · exact notes_handle_ok h hr

/-- A program that only asks for operations that note nothing. -/
theorem notes_of_safe {P : Op → Prop} {R : (o : Op) → Resp o → Prop} (hR : ∀ o s, R o (exec o s).1)
    (hP : ∀ o, P o → note o = []) {m : Prog Op Resp ε α} {Q : α → Prop} (h : Safe P R m Q) (s : σ) :
    notes exec note m s = [] := by
  induction m generalizing s with
  | ret a => rfl
  | stop e => rfl
  | op o k ih =>
    change note o ++ notes exec note (k (exec o s).1) (exec o s).2 = []
    rw [hP o h.1, ih _ (h.2 _ (hR o s))]
    rfl

/-- Where each operation adds its notes to a part of the state, a run adds all of its notes. -/
theorem run_notes {view : σ → List γ} (hv : ∀ o s, view (exec o s).2 = view s ++ note o) (m : Prog Op Resp ε α) (s : σ) :
    view (run exec m s).2 = view s ++ notes exec note m s := by
  induction m generalizing s with
  | ret a => exact (List.append_nil _).symm
  | stop e => exact (List.append_nil _).symm
  | op o k ih =>
    change view (run exec (k (exec o s).1) (exec o s).2).2 = view s ++ (note o ++ notes exec note (k (exec o s).1) (exec o s).2)
    rw [ih, hv, List.append_assoc]

end Notes

/-! ## Where a run leads -/

/-- The run of the program from `s` ends in a state that `R` relates to it. -/
def Moves (exec : (o : Op) → σ → Resp o × σ) (R : σ → σ → Prop) (m : Prog Op Resp ε α) (s : σ) : Prop := R s (run exec m s).2

section Moves

variable {exec : (o : Op) → σ → Resp o × σ} {R : σ → σ → Prop} [IsPreorder σ R] {s : σ}

theorem Moves.ret (a : α) : Moves exec R (.ret a : Prog Op Resp ε α) s := refl_of R s

theorem Moves.pure (a : α) : Moves exec R (Pure.pure a : Prog Op Resp ε α) s := refl_of R s

theorem Moves.stop (e : ε) : Moves exec R (.stop e : Prog Op Resp ε α) s := refl_of R s

theorem Moves.ofExcept (x : Except ε α) : Moves exec R (ofExcept x : Prog Op Resp ε α) s := by
  cases x with
  | ok a => exact .ret a
  | error e => exact .stop e

/-- A sequence: its second part starts where the first has ended with a value. -/
theorem Moves.bind {m : Prog Op Resp ε α} {f : α → Prog Op Resp ε β} (hm : Moves exec R m s)
    (hf : ∀ a t, run exec m s = (.ok a, t) → Moves exec R (f a) t) : Moves exec R (m >>= f) s := by
  unfold Moves at hm ⊢
  rw [run_bind]
  rcases hr : run exec m s with ⟨e | a, t⟩ <;> rw [hr] at hm
  · exact hm
  · exact trans_of R hm (hf a t hr)

theorem Moves.ite {c : Prop} [Decidable c] {m k : Prog Op Resp ε α} (hm : c → Moves exec R m s) (hk : ¬ c → Moves exec R k s) :
    Moves exec R (if c then m else k) s := by
  split
  next h => exact hm h
  next h => exact hk h

end Moves

/-! ## Postconditions -/

/-- Run from `s`, the program ends in a result and a state that satisfy `Q`. -/
def Wp (exec : (o : Op) → σ → Resp o × σ) (m : Prog Op Resp ε α) (Q : Except ε α → σ → Prop) (s : σ) : Prop :=
  Q (run exec m s).1 (run exec m s).2

section Wp

variable {exec : (o : Op) → σ → Resp o × σ} {Q : Except ε α → σ → Prop}

@[simp] theorem wp_ret (a : α) (s : σ) : Wp exec (.ret a : Prog Op Resp ε α) Q s ↔ Q (.ok a) s := Iff.rfl

@[simp] theorem wp_pure (a : α) (s : σ) : Wp exec (pure a : Prog Op Resp ε α) Q s ↔ Q (.ok a) s := Iff.rfl

@[simp] theorem wp_stop (e : ε) (s : σ) : Wp exec (.stop e : Prog Op Resp ε α) Q s ↔ Q (.error e) s := Iff.rfl

@[simp] theorem wp_throw (e : ε) (s : σ) : Wp exec (throw e : Prog Op Resp ε α) Q s ↔ Q (.error e) s := Iff.rfl

@[simp] theorem wp_ask (o : Op) (Q : Except ε (Resp o) → σ → Prop) (s : σ) :
    Wp exec (ask o) Q s ↔ Q (.ok (exec o s).1) (exec o s).2 := Iff.rfl

@[simp] theorem wp_ofExcept (x : Except ε α) (s : σ) : Wp exec (ofExcept x : Prog Op Resp ε α) Q s ↔ Q x s := by
  cases x <;> rfl

/-- The postcondition of a sequence is that of its second part, asked of where the first ends. -/
theorem wp_bind {m : Prog Op Resp ε α} {f : α → Prog Op Resp ε β} {Q : Except ε β → σ → Prop} {s : σ} :
    Wp exec (m >>= f) Q s ↔ Wp exec m (fun r t => match r with
      | .ok a => Wp exec (f a) Q t
      | .error e => Q (.error e) t) s := by
  unfold Wp
  rw [run_bind]
  rcases run exec m s with ⟨_ | a, t⟩ <;> rfl

/-- The postcondition of a handled program. -/
theorem wp_handle {m : Prog Op Resp ε α} {h : ε → Prog Op Resp ε α} {s : σ} :
    Wp exec (m.handle h) Q s ↔ Wp exec m (fun r t => match r with
      | .ok a => Q (.ok a) t
      | .error e => Wp exec (h e) Q t) s := by
  unfold Wp
  rw [run_handle]
  rcases run exec m s with ⟨_ | a, t⟩ <;> rfl

/-- A postcondition may be weakened. -/
theorem Wp.mono {m : Prog Op Resp ε α} {Q Q' : Except ε α → σ → Prop} {s : σ} (h : Wp exec m Q s)
    (hQ : ∀ r t, Q r t → Q' r t) : Wp exec m Q' s :=
  hQ _ _ h

end Wp

end Prog
