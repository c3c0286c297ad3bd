import Mathlib.Data.List.Basic
import Mathlib.Data.List.Infix
import Mathlib.Logic.Basic

/-!
# Frames in a stream

A sender writes frames one after the other, and the receiver gets the stream in reads that are cut anywhere. A receiver is a
step function that answers a read with messages and keeps what it still needs. It delivers a list of frames if after every read
it has passed on the messages of the frames that have arrived whole, and keeps the rest of the stream pending (`Delivers`). A
receiver that takes whole frames off the front of its buffer as long as there is one (`Splitter`) delivers.
-/

namespace Framing

variable {β φ μ ρ σ : Type}

/-- The messages of a run of reads, and the state after it. -/
def run (read : σ → ρ → List μ × σ) : σ → List ρ → List μ × σ
  | s, [] => ([], s)
  | s, r :: rs =>
    let x := read s r
    let y := run read x.2 rs
    (x.1 ++ y.1, y.2)

/-- `done` are the frames of the list that are whole in the bytes, and `rest` is what the bytes hold of the next one. -/
structure Arrived (enc : φ → List β) (fs done : List φ) (bytes rest : List β) : Prop where
  split : ∃ todo, fs = done ++ todo ∧ ∀ f ∈ todo.head?, rest.length < (enc f).length
  bytes : bytes = done.flatMap enc ++ rest

/-- After every read the receiver has passed on the messages of the frames that have arrived, and keeps the rest pending. -/
def Delivers (enc : φ → List β) (msg : φ → μ) (data : ρ → List β) (read : σ → ρ → List μ × σ) (pending : σ → List β) (s : σ)
    (fs : List φ) (rs : List ρ) : Prop :=
  ∀ pre post, rs = pre ++ post → ∃ done, Arrived enc fs done (pre.flatMap data) (pending (run read s pre).2) ∧
    (run read s pre).1 = done.map msg

section Run

variable {read : σ → ρ → List μ × σ} {s : σ}

@[simp] theorem run_nil : run read s [] = ([], s) := rfl

theorem run_cons (r : ρ) (rs : List ρ) :
    run read s (r :: rs) = ((read s r).1 ++ (run read (read s r).2 rs).1, (run read (read s r).2 rs).2) := rfl

@[simp] theorem run_singleton (r : ρ) : run read s [r] = read s r := by
  rw [run_cons]
  simp

theorem run_append (rs rs' : List ρ) :
    run read s (rs ++ rs') = ((run read s rs).1 ++ (run read (run read s rs).2 rs').1, (run read (run read s rs).2 rs').2) := by
  induction rs generalizing s with
  | nil => rfl
  | cons r rs ih =>
    rw [List.cons_append, run_cons, run_cons, ih, List.append_assoc]

/-- What every read keeps, a run keeps. -/
theorem run_inv {I : σ → Prop} (hstep : ∀ s r, I s → I (read s r).2) (hI : I s) (rs : List ρ) : I (run read s rs).2 := by
  induction rs generalizing s with
  | nil => exact hI
  | cons r rs ih => exact ih (hstep s r hI)

end Run

section Arrived

variable {enc : φ → List β} {fs done : List φ} {bytes rest : List β}

/-- Nothing has arrived of no bytes. -/
theorem Arrived.nil (hne : ∀ f, enc f ≠ []) : Arrived enc fs [] [] [] := by
  refine ⟨⟨fs, rfl, ?_⟩, rfl⟩
  intro f _
  exact List.length_pos_of_ne_nil (hne f)

/-- A frame in front of the stream and of the list. -/
theorem Arrived.cons (h : Arrived enc fs done bytes rest) (f : φ) :
    Arrived enc (f :: fs) (f :: done) (enc f ++ bytes) rest := by
  obtain ⟨todo, hfs, hrest⟩ := h.split
  refine ⟨⟨todo, by rw [hfs]; rfl, hrest⟩, ?_⟩
  rw [h.bytes, List.flatMap_cons, List.append_assoc]

/-- Taking the first frame off the stream again. -/
theorem Arrived.tail {f : φ} (h : Arrived enc (f :: fs) (f :: done) (enc f ++ bytes) rest) :
    Arrived enc fs done bytes rest := by
  obtain ⟨todo, hfs, hrest⟩ := h.split
  refine ⟨⟨todo, (List.cons.inj hfs).2, hrest⟩, ?_⟩
  have hb := h.bytes
  rw [List.flatMap_cons, List.append_assoc] at hb
  exact List.append_cancel_left hb

/-- In a whole stream every frame has arrived. -/
theorem Arrived.all (h : Arrived enc fs done (fs.flatMap enc) rest) : done = fs ∧ rest = [] := by
  obtain ⟨todo, hfs, hrest⟩ := h.split
  have hb := h.bytes
  rw [hfs, List.flatMap_append] at hb
  have hr : todo.flatMap enc = rest := List.append_cancel_left hb
  cases todo with
  | nil => exact ⟨by rw [hfs, List.append_nil], hr.symm⟩
  | cons f todo =>
    have hlt := hrest f (by simp)
    rw [← hr, List.flatMap_cons, List.length_append] at hlt
    omega

/-- Bytes tell which frames have arrived. -/
theorem Arrived.unique {done' : List φ} {rest' : List β} (h : Arrived enc fs done bytes rest)
    (h' : Arrived enc fs done' bytes rest') :
    done = done' ∧ rest = rest' := by
  obtain ⟨todo, hfs, hrest⟩ := h.split
  obtain ⟨todo', hfs', hrest'⟩ := h'.split
  have hbytes := h.bytes.symm.trans h'.bytes
  -- the frame after the shorter of the two lists would be whole in its rest
  rcases List.append_eq_append_iff.1 (hfs.symm.trans hfs') with ⟨mid, rfl, htodo⟩ | ⟨mid, rfl, htodo⟩
  · rw [List.flatMap_append, List.append_assoc] at hbytes
    have hr := List.append_cancel_left hbytes
    cases mid with
    | nil => exact ⟨(List.append_nil _).symm, hr⟩
    | cons f mid =>
      have hlt := hrest f (by rw [htodo]; rfl)
      rw [hr, List.flatMap_cons, List.length_append, List.length_append] at hlt
      omega
  · rw [List.flatMap_append, List.append_assoc] at hbytes
    have hr := List.append_cancel_left hbytes
    cases mid with
    | nil => exact ⟨List.append_nil _, hr⟩
    | cons f mid =>
      have hlt := hrest' f (by rw [htodo]; rfl)
      rw [← hr, List.flatMap_cons, List.length_append, List.length_append] at hlt
      omega

/-- The beginning of a stream holds some frames whole, and the beginning of the others. -/
theorem exists_arrived (fs : List φ) {t : List β} (ht : t <+: fs.flatMap enc) :
    ∃ done todo rest, fs = done ++ todo ∧ t = done.flatMap enc ++ rest ∧ rest <+: todo.flatMap enc ∧
      ∀ f ∈ todo.head?, rest.length < (enc f).length := by
  induction fs generalizing t with
  | nil => exact ⟨[], [], t, rfl, rfl, ht, by simp⟩
  | cons f fs ih =>
    by_cases hlen : t.length < (enc f).length
    · refine ⟨[], f :: fs, t, rfl, rfl, ht, ?_⟩
      intro g hg
      cases hg
      exact hlen
    · rw [List.flatMap_cons] at ht
      obtain ⟨u, rfl⟩ := List.prefix_of_prefix_length_le (List.prefix_append _ _) ht (by omega)
      obtain ⟨done, todo, rest, rfl, rfl, hpre, hrest⟩ := ih ((List.prefix_append_right_inj _).1 ht)
      exact ⟨f :: done, todo, rest, rfl, by rw [List.flatMap_cons, List.append_assoc], hpre, hrest⟩

end Arrived

section Delivers

variable {enc : φ → List β} {msg : φ → μ} {data : ρ → List β} {read : σ → ρ → List μ × σ} {pending : σ → List β} {s : σ}
  {fs : List φ} {rs : List ρ}

/-- The first read brings one frame. -/
theorem Delivers.cons {f : φ} {r : ρ} (hne : ∀ f, enc f ≠ []) (hdata : data r = enc f) (hmsg : (read s r).1 = [msg f])
    (hs : pending s = []) (h : Delivers enc msg data read pending (read s r).2 fs rs) :
    Delivers enc msg data read pending s (f :: fs) (r :: rs) := by
  intro pre post hrs
  cases pre with
  | nil => exact ⟨[], by simpa [hs] using Arrived.nil hne, rfl⟩
  | cons x pre =>
    obtain ⟨hx, hrest⟩ := List.cons.inj hrs
    subst hx
    obtain ⟨done, ha, hm⟩ := h pre post hrest
    refine ⟨f :: done, ?_, ?_⟩
    · rw [List.flatMap_cons, hdata]
      exact ha.cons f
    · rw [run_cons, hmsg, hm]
      rfl

/-- A receiver that delivers goes on to deliver when the first read brought one frame. -/
theorem Delivers.tail {f : φ} {r : ρ} (hdata : data r = enc f) (hmsg : (read s r).1 = [msg f])
    (h : Delivers enc msg data read pending s (f :: fs) (r :: rs)) :
    Delivers enc msg data read pending (read s r).2 fs rs := by
  intro pre post hrs
  obtain ⟨done, ha, hm⟩ := h (r :: pre) post (by rw [hrs]; rfl)
  rw [List.flatMap_cons, hdata] at ha
  rw [run_cons, hmsg] at hm
  cases done with
  | nil => cases hm
  | cons g done =>
    obtain ⟨todo, hfs, -⟩ := ha.split
    obtain ⟨rfl, -⟩ := List.cons.inj hfs
    refine ⟨done, ha.tail, ?_⟩
    exact (List.cons.inj hm).2

/-- What is passed on after the last read are the messages of all frames. -/
theorem Delivers.all (hall : rs.flatMap data = fs.flatMap enc) (h : Delivers enc msg data read pending s fs rs) :
    (run read s rs).1 = fs.map msg ∧ pending (run read s rs).2 = [] := by
  obtain ⟨done, ha, hm⟩ := h rs [] (List.append_nil rs).symm
  rw [hall] at ha
  obtain ⟨rfl, hrest⟩ := ha.all
  exact ⟨hm, hrest⟩

end Delivers

/-! ## Taking frames off the front -/

/-- What is at the front of a buffer: not yet a whole frame, a message and what follows its frame, or something that ends the
reading. -/
inductive Front (β μ : Type)
  | wait
  | message (m : μ) (rest : List β)
  | stop (rest : List β)

/-- How a receiver looks at the front of its buffer. A frame takes room, and what follows it makes no difference. -/
structure Splitter (β μ : Type) where
  next : List β → Front β μ
  shrinks : ∀ s m t, next s = .message m t → t.length < s.length
  stable : ∀ s m t r, next s = .message m t → next (s ++ r) = .message m (t ++ r)
  stops : ∀ s t r, next s = .stop t → next (s ++ r) = .stop (t ++ r)

/-- The buffer of a connection, and whether the connection is closed. -/
structure Link (β : Type) where
  buffer : List β
  closed : Bool

namespace Splitter

variable (S : Splitter β μ)

/-- Take messages off the front as long as there is one. -/
def drain (s : List β) : List μ × Link β :=
  match _h : S.next s with
  | .wait => ([], ⟨s, false⟩)
  | .message m t => (m :: (drain t).1, (drain t).2)
  | .stop t => ([], ⟨t, true⟩)
termination_by s.length
decreasing_by all_goals exact S.shrinks _ _ _ _h

/-- A read: the bytes go to the end of the buffer, and the buffer is drained. -/
def read (l : Link β) (r : List β) : List μ × Link β := if l.closed then ([], l) else S.drain (l.buffer ++ r)

variable {S}

theorem drain_wait {s : List β} (h : S.next s = .wait) : S.drain s = ([], ⟨s, false⟩) := by
  rw [drain]
  split
  · rfl
  · rename_i h'
    rw [h] at h'
    cases h'
  · rename_i h'
    rw [h] at h'
    cases h'

theorem drain_message {s t : List β} {m : μ} (h : S.next s = .message m t) :
    S.drain s = (m :: (S.drain t).1, (S.drain t).2) := by
  rw [drain]
  split
  · rename_i h'
    rw [h] at h'
    cases h'
  · rename_i h'
    rw [h] at h'
    cases h'
    rfl
  · rename_i h'
    rw [h] at h'
    cases h'

theorem drain_stop {s t : List β} (h : S.next s = .stop t) : S.drain s = ([], ⟨t, true⟩) := by
  rw [drain]
  split
  · rename_i h'
    rw [h] at h'
    cases h'
  · rename_i h'
    rw [h] at h'
    cases h'
  · rename_i h'
    rw [h] at h'
    cases h'
    rfl

/-- The cases of draining, with what follows the first message drained before. -/
theorem drain_induct {P : List β → Prop} (wait : ∀ s, S.next s = .wait → P s)
    (message : ∀ s m t, S.next s = .message m t → P t → P s) (stop : ∀ s t, S.next s = .stop t → P s) (s : List β) : P s := by
  induction hn : s.length using Nat.strongRecOn generalizing s with
  | ind n ih =>
    cases h : S.next s with
    | wait => exact wait s h
    | message m t =>
      have hlt := S.shrinks s m t h
      exact message s m t h (ih t.length (by omega) t rfl)
    | stop t => exact stop s t h

/-- Draining more bytes goes on with what is left of the first ones, unless these have ended it. -/
theorem drain_append (s r : List β) :
    ((S.drain s).2.closed = true → (S.drain (s ++ r)).2.closed = true) ∧
      ((S.drain s).2.closed = false → S.drain (s ++ r) =
        ((S.drain s).1 ++ (S.drain ((S.drain s).2.buffer ++ r)).1, (S.drain ((S.drain s).2.buffer ++ r)).2)) := by
  induction s using drain_induct (S := S) with
  | wait s h =>
    rw [drain_wait h]
    exact ⟨fun hc => (Bool.false_ne_true hc).elim, fun _ => rfl⟩
  | message s m t h ih =>
    rw [drain_message h, drain_message (S.stable s m t r h)]
    refine ⟨ih.1, fun hc => ?_⟩
    rw [ih.2 hc]
    rfl
  | stop s t h =>
    rw [drain_stop h, drain_stop (S.stops s t r h)]
    exact ⟨fun _ => rfl, fun hc => (Bool.false_ne_true hc.symm).elim⟩

/-- What is left of draining is drained. -/
theorem drain_left (s : List β) (hs : (S.drain s).2.closed = false) : S.drain (S.drain s).2.buffer = ([], (S.drain s).2) := by
  induction s using drain_induct (S := S) with
  | wait s h =>
    rw [drain_wait h]
    exact drain_wait h
  | message s m t h ih =>
    rw [drain_message h] at hs ⊢
    exact ih hs
  | stop s t h =>
    rw [drain_stop h] at hs
    exact (Bool.false_ne_true hs.symm).elim

theorem run_closed {l : Link β} (hl : l.closed = true) (rs : List (List β)) : run S.read l rs = ([], l) := by
  induction rs with
  | nil => rfl
  | cons r rs ih =>
    have hr : S.read l r = ([], l) := by
      unfold read
      rw [if_pos hl]
    rw [run_cons, hr, ih]
    rfl

/-- A run of reads closes exactly if draining all of its bytes does, and else does the same. -/
theorem run_eq_drain (rs : List (List β)) {l : Link β} (hl : l.closed = false) (hw : S.drain l.buffer = ([], l)) :
    (run S.read l rs).2.closed = (S.drain (l.buffer ++ rs.flatten)).2.closed ∧
      ((run S.read l rs).2.closed = false → run S.read l rs = S.drain (l.buffer ++ rs.flatten)) := by
  induction rs generalizing l with
  | nil => simp [hw]
  | cons r rs ih =>
    have hr : S.read l r = S.drain (l.buffer ++ r) := by
      unfold read
      rw [if_neg (by rw [hl]; exact Bool.false_ne_true)]
    have hall : l.buffer ++ (r :: rs).flatten = (l.buffer ++ r) ++ rs.flatten := by
      rw [List.flatten_cons, List.append_assoc]
    obtain ⟨hclosed, hopen⟩ := drain_append (S := S) (l.buffer ++ r) rs.flatten
    rw [run_cons, hr, hall]
    cases hc : (S.drain (l.buffer ++ r)).2.closed with
    | true =>
      rw [run_closed hc, hclosed hc, hc]
      exact ⟨rfl, fun h => (Bool.false_ne_true h.symm).elim⟩
    | false =>
      obtain ⟨ih1, ih2⟩ := ih hc (drain_left _ hc)
      rw [hopen hc]
      refine ⟨ih1, fun h => ?_⟩
      rw [ih2 h]

section Frames

variable {enc : φ → List β} {msg : φ → μ}

theorem drain_flatMap (hwhole : ∀ f, S.next (enc f) = .message (msg f) []) {rest : List β} (hrest : S.next rest = .wait)
    (fs : List φ) : S.drain (fs.flatMap enc ++ rest) = (fs.map msg, ⟨rest, false⟩) := by
  induction fs with
  | nil => exact drain_wait hrest
  | cons f fs ih =>
    rw [List.flatMap_cons, List.append_assoc, drain_message (S.stable _ _ _ _ (hwhole f)), List.nil_append, ih]
    rfl

/-- A receiver that takes whole frames, and waits for the rest of others, delivers every list of frames over every cut. -/
theorem delivers (hnil : S.next [] = .wait) (hwhole : ∀ f, S.next (enc f) = .message (msg f) [])
    (hpart : ∀ f p, p <+: enc f → p.length < (enc f).length → S.next p = .wait) {fs : List φ} {rs : List (List β)}
    (hcut : rs.flatten = fs.flatMap enc) : Delivers enc msg id S.read Link.buffer ⟨[], false⟩ fs rs := by
  intro pre post hrs
  have hpre : pre.flatten <+: fs.flatMap enc := by
    rw [← hcut, hrs, List.flatten_append]
    exact List.prefix_append _ _
  obtain ⟨done, todo, rest, hfs, hbytes, htodo, hlt⟩ := exists_arrived fs hpre
  have hwait : S.next rest = .wait := by
    cases todo with
    | nil =>
      rw [List.prefix_nil.1 htodo]
      exact hnil
    | cons f todo =>
      have hlen := hlt f rfl
      rw [List.flatMap_cons] at htodo
      exact hpart f rest (List.prefix_of_prefix_length_le htodo (List.prefix_append _ _) (by omega)) hlen
  obtain ⟨hclosed, hrun⟩ := run_eq_drain pre (l := ⟨[], false⟩) rfl (drain_wait hnil)
  rw [List.nil_append, hbytes, drain_flatMap hwhole hwait] at hclosed hrun
  rw [hrun hclosed, List.flatMap_id]
  exact ⟨done, ⟨⟨todo, hfs, hlt⟩, hbytes⟩, rfl⟩

end Frames

end Splitter

end Framing
