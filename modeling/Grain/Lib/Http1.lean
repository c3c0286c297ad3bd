import Mathlib.Data.List.Basic
import Mathlib.Data.List.TakeWhile
import Mathlib.Data.Nat.Digits.Defs
import Mathlib.Logic.Basic

/-!
# A client of HTTP/1.1

How a client reads the responses on a connection by RFC 9112: lines end with CRLF, the end of a body is told by the status, by
`Transfer-Encoding` or by `Content-Length`, and a response with the connection option `close` is the last one. A body that only
the end of the connection would end is not complete.
-/

namespace Http1

/-- A text as it is sent. -/
abbrev Text := List Char

/-- The end of a line. -/
def crlf : Text := ['\r', '\n']

/-! ## Lines -/

/-- The first line, and what follows it. -/
def readLine : Text → Option (Text × Text)
  | [] => none
  | [_] => none
  | c :: d :: s => if c = '\r' ∧ d = '\n' then some ([], s) else (readLine (d :: s)).map fun x => (c :: x.1, x.2)

/-- The lines up to an empty one, at most `n` with it. -/
def readLines : Nat → Text → Option (List Text × Text)
  | 0, _ => none
  | n + 1, s =>
    match readLine s with
    | none => none
    | some (l, t) => if l = [] then some ([], t) else (readLines n t).map fun x => (l :: x.1, x.2)

/-- The lines of a text, each with its end. -/
def writeLines (ls : List Text) : Text := ls.flatMap (· ++ crlf)

theorem readLine_append {l : Text} (h : '\r' ∉ l) (s : Text) : readLine (l ++ crlf ++ s) = some (l, s) := by
  induction l with
  | nil => rfl
  | cons c l ih =>
    obtain ⟨hc, hl⟩ : '\r' ≠ c ∧ '\r' ∉ l := by simpa using h
    have hrest := ih hl
    cases hs : l ++ crlf ++ s with
    | nil =>
      rw [hs] at hrest
      cases hrest
    | cons d t =>
      rw [hs] at hrest
      rw [List.cons_append, List.cons_append, hs, readLine, if_neg (by rintro ⟨rfl, -⟩; exact hc rfl), hrest]
      rfl

theorem readLines_append {ls : List Text} (h : ∀ l ∈ ls, l ≠ [] ∧ '\r' ∉ l) {n : Nat} (hn : ls.length < n) (s : Text) :
    readLines n (writeLines ls ++ crlf ++ s) = some (ls, s) := by
  induction ls generalizing n with
  | nil =>
    cases n with
    | zero => cases hn
    | succ n => rfl
  | cons l ls ih =>
    cases n with
    | zero => cases hn
    | succ n =>
      obtain ⟨hne, hcr⟩ := h l List.mem_cons_self
      have hline := readLine_append hcr (writeLines ls ++ crlf ++ s)
      have hsplit : writeLines (l :: ls) ++ crlf ++ s = l ++ crlf ++ (writeLines ls ++ crlf ++ s) := by
        simp [writeLines]
      have hrest := ih (fun l' hl' => h l' (List.mem_cons_of_mem _ hl')) (Nat.lt_of_succ_lt_succ hn)
      rw [hsplit, readLines, hline]
      dsimp only
      rw [if_neg hne, hrest]
      rfl

theorem length_le_writeLines (ls : List Text) : ls.length ≤ (writeLines ls).length := by
  induction ls with
  | nil => exact Nat.zero_le _
  | cons l ls ih =>
    rw [writeLines, List.flatMap_cons, List.length_append, List.length_append, List.length_cons]
    have : crlf.length = 2 := rfl
    unfold writeLines at ih
    omega

/-! ## Numbers -/

/-- The value of a digit. -/
def digitValue (c : Char) : Option Nat :=
  if '0' ≤ c ∧ c ≤ '9' then some (c.toNat - '0'.toNat)
  else if 'a' ≤ c ∧ c ≤ 'f' then some (c.toNat - 'a'.toNat + 10)
  else if 'A' ≤ c ∧ c ≤ 'F' then some (c.toNat - 'A'.toNat + 10)
  else none

/-- One more digit of a number. -/
def digitStep (b n : Nat) (c : Char) : Option Nat :=
  match digitValue c with
  | none => none
  | some d => if d < b then some (b * n + d) else none

/-- A number in base `b`. -/
def number (b : Nat) (l : Text) : Option Nat := if l = [] then none else l.foldlM (digitStep b) 0

theorem digitValue_digitChar : ∀ d : Fin 16, digitValue (Nat.digitChar d) = some d.1 := by decide

theorem digitStep_digitChar {b d : Nat} (hb : b ≤ 16) (hd : d < b) (n : Nat) :
    digitStep b n (Nat.digitChar d) = some (b * n + d) := by
  have h := digitValue_digitChar ⟨d, by omega⟩
  unfold digitStep
  rw [h]
  exact if_pos hd

theorem foldlM_toDigits {b : Nat} (hb : 1 < b) (hb' : b ≤ 16) (n : Nat) :
    (Nat.toDigits b n).foldlM (digitStep b) 0 = some n := by
  induction n using Nat.strongRecOn with
  | ind n ih =>
    rw [Nat.toDigits_eq_if hb]
    split
    · rename_i hlt
      rw [List.foldlM_cons, digitStep_digitChar hb' hlt, Nat.mul_zero, Nat.zero_add]
      rfl
    · rename_i hge
      have hlt : n / b < n := Nat.div_lt_self (by omega) hb
      rw [List.foldlM_append, ih (n / b) hlt]
      change List.foldlM (digitStep b) (n / b) [Nat.digitChar (n % b)] = some n
      rw [List.foldlM_cons, digitStep_digitChar hb' (Nat.mod_lt _ (by omega)), Nat.div_add_mod]
      rfl

/-- The digits of a number give it back. -/
theorem number_toDigits {b : Nat} (hb : 1 < b) (hb' : b ≤ 16) (n : Nat) : number b (Nat.toDigits b n) = some n := by
  unfold number
  rw [if_neg Nat.toDigits_ne_nil, foldlM_toDigits hb hb']

/-- Digits are neither ends of lines nor separators. -/
theorem not_mem_toDigits {b : Nat} (hb : 1 < b) (hb' : b ≤ 16) {c : Char} (hc : digitValue c = none) (n : Nat) :
    c ∉ Nat.toDigits b n := by
  induction n using Nat.strongRecOn with
  | ind n ih =>
    have hdigit : ∀ d < b, c ≠ Nat.digitChar d := by
      rintro d hd rfl
      rw [digitValue_digitChar ⟨d, by omega⟩] at hc
      cases hc
    rw [Nat.toDigits_eq_if hb]
    split
    · rename_i hlt
      exact fun h => hdigit n hlt (List.mem_singleton.1 h)
    · rename_i hge
      intro h
      rcases List.mem_append.1 h with h | h
      · exact ih (n / b) (Nat.div_lt_self (by omega) hb) h
      · exact hdigit _ (Nat.mod_lt _ (by omega)) (List.mem_singleton.1 h)

/-! ## Fields -/

/-- A field of the header section. -/
structure HeaderField where
  name : Text
  value : Text

/-- Optional white space. -/
def isOws (c : Char) : Bool := c = ' ' || c = '\t'

/-- A value without the white space around it. -/
def trim (v : Text) : Text := ((v.dropWhile isOws).reverse.dropWhile isOws).reverse

/-- Names and tokens are compared in lower case. -/
def lower (v : Text) : Text := v.map Char.toLower

/-- A field line: the name up to the colon, and the value. -/
def parseField (l : Text) : Option HeaderField :=
  match l.dropWhile (· ≠ ':') with
  | [] => none
  | _ :: v => some ⟨l.takeWhile (· ≠ ':'), trim v⟩

/-- The values of the fields with a name. -/
def values (name : Text) (fs : List HeaderField) : List Text := (fs.filter fun f => lower f.name = name).map HeaderField.value

/-- The members of a list that may be spread over several fields. -/
def members (name : Text) (fs : List HeaderField) : List Text :=
  (values name fs).flatMap fun v => (v.splitOn ',').map fun w => lower (trim w)

/-- The line of a field as it is written. -/
def writeField (f : HeaderField) : Text := f.name ++ [':', ' '] ++ f.value

theorem parseField_writeField {f : HeaderField} (h : ':' ∉ f.name) : parseField (writeField f) = some ⟨f.name, trim f.value⟩ := by
  have hname : ∀ c ∈ f.name, (decide (c ≠ ':')) = true := by
    intro c hc
    rw [decide_eq_true_eq]
    rintro rfl
    exact h hc
  have hdrop : (writeField f).dropWhile (· ≠ ':') = ':' :: ' ' :: f.value := by
    rw [writeField, List.append_assoc, List.dropWhile_append_of_pos hname]
    rfl
  have htake : (writeField f).takeWhile (· ≠ ':') = f.name := by
    rw [writeField, List.append_assoc, List.takeWhile_append_of_pos hname]
    simp
  have htrim : trim (' ' :: f.value) = trim f.value := by
    unfold trim
    rfl
  rw [parseField, hdrop]
  dsimp only
  rw [htake, htrim]

/-- All fields of a header section are read, with trimmed values. -/
theorem mapM_parseField {fs : List HeaderField} (h : ∀ f ∈ fs, ':' ∉ f.name) :
    (fs.map writeField).mapM parseField = some (fs.map fun f => ⟨f.name, trim f.value⟩) := by
  induction fs with
  | nil => rfl
  | cons f fs ih =>
    rw [List.map_cons, List.mapM_cons, parseField_writeField (h f List.mem_cons_self),
      ih fun g hg => h g (List.mem_cons_of_mem _ hg)]
    rfl

/-- A value without white space is not trimmed. -/
theorem trim_eq {v : Text} (h : ∀ c ∈ v, isOws c = false) : trim v = v := by
  have hdrop {w : Text} (hw : ∀ c ∈ w, isOws c = false) : w.dropWhile isOws = w := by
    cases w with
    | nil => rfl
    | cons c w => rw [List.dropWhile_cons, hw c List.mem_cons_self, if_neg Bool.false_ne_true]
  rw [trim, hdrop h, hdrop fun c hc => h c (List.mem_reverse.1 hc), List.reverse_reverse]

@[simp] theorem values_nil (name : Text) : values name [] = [] := rfl

theorem values_cons (name : Text) (f : HeaderField) (fs : List HeaderField) :
    values name (f :: fs) = if lower f.name = name then f.value :: values name fs else values name fs := by
  unfold values
  rw [List.filter_cons]
  split
  · rename_i h
    rw [decide_eq_true_eq] at h
    rw [if_pos h]
    rfl
  · rename_i h
    rw [decide_eq_true_eq] at h
    rw [if_neg h]

@[simp]
theorem values_append (name : Text) (fs gs : List HeaderField) : values name (fs ++ gs) = values name fs ++ values name gs := by
  unfold values
  rw [List.filter_append, List.map_append]

theorem values_eq_nil {name : Text} {fs : List HeaderField} (h : ∀ f ∈ fs, lower f.name ≠ name) : values name fs = [] := by
  unfold values
  rw [List.filter_eq_nil_iff.2 (by simpa using h)]
  rfl

theorem values_trim (name : Text) (fs : List HeaderField) :
    values name (fs.map fun f => ⟨f.name, trim f.value⟩) = (values name fs).map trim := by
  induction fs with
  | nil => rfl
  | cons f fs ih =>
    rw [List.map_cons, values_cons, values_cons, ih]
    split <;> rfl

/-! ## Bodies -/

/-- How the end of a body is found. -/
inductive Extent
  | none
  | length (n : Nat)
  | chunked
  | close
  deriving DecidableEq

/-- The responses with these states have no body. -/
def bodyless (status : Nat) : Bool := status < 200 || status = 204 || status = 304

/-- How the end of a body is found, by the order of the rules: the status, the transfer coding, the length. -/
def extent (status : Nat) (fs : List HeaderField) : Option Extent :=
  if bodyless status then some .none
  else if values "transfer-encoding".toList fs ≠ [] then
    some (if (members "transfer-encoding".toList fs).getLast? = some "chunked".toList then .chunked else .close)
  else
    match values "content-length".toList fs with
    | [] => some .close
    | v :: vs => if vs.all (· = v) then (number 10 v).map .length else Option.none

/-- So many bytes. -/
def takeExactly (n : Nat) (s : Text) : Option (Text × Text) := if n ≤ s.length then some (s.take n, s.drop n) else none

/-- Chunks up to the last one, which has the size 0, and the trailer section. -/
def readChunks : Nat → Text → Option (Text × Text)
  | 0, _ => none
  | n + 1, s =>
    match readLine s with
    | none => none
    | some (l, t) =>
      match number 16 (l.takeWhile (· ≠ ';')) with
      | none => none
      | some 0 => (readLines (t.length + 1) t).map fun x => ([], x.2)
      | some (k + 1) =>
        match takeExactly (k + 1) t with
        | none => none
        | some (data, t) =>
          match takeExactly 2 t with
          | none => none
          | some (e, t) => if e = crlf then (readChunks n t).map fun x => (data ++ x.1, x.2) else none

/-- The body, and what follows it. -/
def readBody (e : Option Extent) (s : Text) : Option (Text × Text) :=
  match e with
  | none => none
  | some .none => some ([], s)
  | some (.length n) => takeExactly n s
  | some .chunked => readChunks (s.length + 1) s
  | some .close => none

/-- A chunk as it is written. -/
def writeChunk (data : Text) : Text := Nat.toDigits 16 data.length ++ crlf ++ data ++ crlf

theorem takeExactly_append (v s : Text) : takeExactly v.length (v ++ s) = some (v, s) := by
  unfold takeExactly
  rw [if_pos (by simp), List.take_left, List.drop_left]

theorem takeWhile_toDigits (n : Nat) : (Nat.toDigits 16 n).takeWhile (· ≠ ';') = Nat.toDigits 16 n := by
  rw [List.takeWhile_eq_self_iff]
  intro c hc
  rw [decide_eq_true_eq]
  rintro rfl
  exact not_mem_toDigits (by decide) (by decide) (by decide) n hc

theorem readLine_size (n : Nat) (s : Text) : readLine (Nat.toDigits 16 n ++ crlf ++ s) = some (Nat.toDigits 16 n, s) :=
  readLine_append (not_mem_toDigits (by decide) (by decide) (by decide) n) s

/-- A chunk that is not the last one. -/
theorem readChunks_cons {data : Text} (h : data ≠ []) (n : Nat) (s : Text) :
    readChunks (n + 1) (writeChunk data ++ s) = (readChunks n s).map fun x => (data ++ x.1, x.2) := by
  obtain ⟨k, hk⟩ : ∃ k, data.length = k + 1 := ⟨data.length - 1, by have := List.length_pos_of_ne_nil h; omega⟩
  have hsplit : writeChunk data ++ s = Nat.toDigits 16 data.length ++ crlf ++ (data ++ (crlf ++ s)) := by
    simp [writeChunk]
  have hdata := takeExactly_append data (crlf ++ s)
  have hend := takeExactly_append crlf s
  rw [hk] at hdata
  rw [hsplit, readChunks, readLine_size]
  simp only [takeWhile_toDigits, number_toDigits (by decide : 1 < 16) (by decide : 16 ≤ 16), hk, hdata]
  change (match takeExactly crlf.length (crlf ++ s) with | _ => _) = _
  rw [hend]
  rfl

/-- A chunk of the size 0 ends the body. -/
theorem readChunks_last (n : Nat) (s : Text) :
    readChunks (n + 1) (['0'] ++ crlf ++ s) = (readLines (s.length + 1) s).map fun x => ([], x.2) := by
  have hline : readLine (['0'] ++ crlf ++ s) = some (['0'], s) := readLine_append (by decide) s
  have hzero : number 16 (['0'].takeWhile (· ≠ ';')) = some 0 := by decide
  rw [readChunks, hline]
  simp only [hzero]

/-- Chunks that are not empty, and a last one without trailers, are the body they were cut from. -/
theorem readChunks_append {ps : List Text} (h : ∀ p ∈ ps, p ≠ []) {n : Nat} (hn : ps.length < n) (s : Text) :
    readChunks n (ps.flatMap writeChunk ++ (['0'] ++ crlf ++ crlf) ++ s) = some (ps.flatten, s) := by
  induction ps generalizing n with
  | nil =>
    cases n with
    | zero => cases hn
    | succ n =>
      have hsplit : ([] : List Text).flatMap writeChunk ++ (['0'] ++ crlf ++ crlf) ++ s = ['0'] ++ crlf ++ (crlf ++ s) := by simp
      have hlines : readLines ((crlf ++ s).length + 1) (crlf ++ s) = some ([], s) :=
        @readLines_append [] (by simp) _ (Nat.succ_pos _) s
      rw [hsplit, readChunks_last, hlines]
      rfl
  | cons p ps ih =>
    cases n with
    | zero => cases hn
    | succ n =>
      have hsplit : (p :: ps).flatMap writeChunk ++ (['0'] ++ crlf ++ crlf) ++ s =
          writeChunk p ++ (ps.flatMap writeChunk ++ (['0'] ++ crlf ++ crlf) ++ s) := by
        simp
      rw [hsplit, readChunks_cons (h p List.mem_cons_self),
        ih (fun q hq => h q (List.mem_cons_of_mem _ hq)) (Nat.lt_of_succ_lt_succ hn)]
      rfl

/-! ## Responses -/

/-- The status of a status line. -/
def parseStatus (l : Text) : Option Nat :=
  if l.take 9 = "HTTP/1.1 ".toList ∧ ((l.drop 9).takeWhile (· ≠ ' ')).length = 3 then number 10 ((l.drop 9).takeWhile (· ≠ ' '))
  else none

/-- The connection is closed after the response. -/
def closes (fs : List HeaderField) : Bool := decide ("close".toList ∈ members "connection".toList fs)

/-- The body of the first response, whether the connection is closed after it, and what follows it. -/
def readResponse (s : Text) : Option ((Text × Bool) × Text) :=
  match readLines (s.length + 1) s with
  | some (st :: ls, t) =>
    match parseStatus st, ls.mapM parseField with
    | some status, some fs => (readBody (extent status fs) t).map fun x => ((x.1, closes fs), x.2)
    | _, _ => none
  | _ => none

/-- The bodies of the complete responses on a connection, each with what follows it. -/
def readResponses : Nat → Text → List (Text × Text)
  | 0, _ => []
  | n + 1, s =>
    match readResponse s with
    | none => []
    | some ((body, close), t) => (body, t) :: (if close then [] else readResponses n t)

/-- What a client reads from the bytes of a connection. -/
def readAll (s : Text) : List (Text × Text) := readResponses (s.length + 1) s

/-- The status of a status line that was written with any reason. -/
theorem parseStatus_line {code : Nat} (hlo : 100 ≤ code) (hhi : code ≤ 999) (reason : Text) :
    parseStatus ("HTTP/1.1 ".toList ++ Nat.toDigits 10 code ++ " ".toList ++ reason) = some code := by
  have hlen : (Nat.toDigits 10 code).length = 3 := by
    have h3 : (Nat.toDigits 10 code).length ≤ 3 ↔ code < 10 ^ 3 := Nat.length_toDigits_le_iff (by decide) (by decide)
    have h2 : (Nat.toDigits 10 code).length ≤ 2 ↔ code < 10 ^ 2 := Nat.length_toDigits_le_iff (by decide) (by decide)
    omega
  have hdigits : ∀ c ∈ Nat.toDigits 10 code, decide (c ≠ ' ') = true := by
    intro c hc
    rw [decide_eq_true_eq]
    rintro rfl
    exact not_mem_toDigits (by decide) (by decide) (by decide) code hc
  have hsplit : "HTTP/1.1 ".toList ++ Nat.toDigits 10 code ++ " ".toList ++ reason =
      "HTTP/1.1 ".toList ++ (Nat.toDigits 10 code ++ (' ' :: reason)) := by
    rw [List.append_assoc, List.append_assoc]
    rfl
  have htake : (Nat.toDigits 10 code ++ (' ' :: reason)).takeWhile (· ≠ ' ') = Nat.toDigits 10 code := by
    rw [List.takeWhile_append_of_pos hdigits]
    simp
  have hfirst (rest : Text) : ("HTTP/1.1 ".toList ++ rest).take 9 = "HTTP/1.1 ".toList := List.take_left' rfl
  have hrest (rest : Text) : ("HTTP/1.1 ".toList ++ rest).drop 9 = rest := List.drop_left' rfl
  rw [hsplit, parseStatus, hfirst, hrest, htake, if_pos ⟨rfl, hlen⟩]
  exact number_toDigits (by decide) (by decide) code

/-- The first of several responses, by its lines. -/
theorem readResponse_append {st : Text} {fs : List HeaderField} {status : Nat} (hst : parseStatus st = some status)
    (hlines : ∀ l ∈ st :: fs.map writeField, l ≠ [] ∧ '\r' ∉ l) (hfs : ∀ f ∈ fs, ':' ∉ f.name) (t : Text) :
    readResponse (writeLines (st :: fs.map writeField) ++ crlf ++ t) =
      (readBody (extent status (fs.map fun f => ⟨f.name, trim f.value⟩)) t).map fun x =>
        ((x.1, closes (fs.map fun f => ⟨f.name, trim f.value⟩)), x.2) := by
  have hlen : (st :: fs.map writeField).length < (writeLines (st :: fs.map writeField) ++ crlf ++ t).length + 1 := by
    have := length_le_writeLines (st :: fs.map writeField)
    rw [List.length_append, List.length_append]
    omega
  rw [readResponse, readLines_append hlines hlen]
  simp only [hst, mapM_parseField hfs]

/-! ## A response takes bytes -/

theorem length_readLine {s l t : Text} (h : readLine s = some (l, t)) : t.length < s.length := by
  induction s generalizing l with
  | nil => cases h
  | cons c s ih =>
    cases s with
    | nil => cases h
    | cons d s =>
      rw [readLine] at h
      split at h
      · cases h
        simp only [List.length_cons]
        omega
      · obtain ⟨x, hx, he⟩ := Option.map_eq_some_iff.1 h
        cases he
        have := ih hx
        rw [List.length_cons]
        omega

theorem length_readLines {n : Nat} {s t : Text} {ls : List Text} (h : readLines n s = some (ls, t)) : t.length < s.length := by
  induction n generalizing s ls with
  | zero => cases h
  | succ n ih =>
    rw [readLines] at h
    split at h
    · cases h
    · rename_i l u hl
      have hu := length_readLine hl
      split at h
      · cases h
        exact hu
      · obtain ⟨x, hx, he⟩ := Option.map_eq_some_iff.1 h
        cases he
        have := ih hx
        omega

theorem length_takeExactly {n : Nat} {s v t : Text} (h : takeExactly n s = some (v, t)) : t.length ≤ s.length := by
  unfold takeExactly at h
  split at h
  · cases h
    rw [List.length_drop]
    omega
  · cases h

theorem length_readChunks {n : Nat} {s v t : Text} (h : readChunks n s = some (v, t)) : t.length ≤ s.length := by
  induction n generalizing s v with
  | zero => cases h
  | succ n ih =>
    rw [readChunks] at h
    split at h
    · cases h
    · rename_i l u hl
      have hu := length_readLine hl
      split at h
      · cases h
      · obtain ⟨x, hx, he⟩ := Option.map_eq_some_iff.1 h
        cases he
        have := length_readLines hx
        omega
      · split at h
        · cases h
        · rename_i data w hdata
          have hw := length_takeExactly hdata
          split at h
          · cases h
          · rename_i e y he
            have hy := length_takeExactly he
            split at h
            · obtain ⟨x, hx, he⟩ := Option.map_eq_some_iff.1 h
              cases he
              have := ih hx
              omega
            · cases h

theorem length_readBody {e : Option Extent} {s v t : Text} (h : readBody e s = some (v, t)) : t.length ≤ s.length := by
  unfold readBody at h
  split at h
  · cases h
  · cases h
    exact Nat.le_refl _
  · exact length_takeExactly h
  · exact length_readChunks h
  · cases h

/-- What follows a response is shorter than what it was read from. -/
theorem length_readResponse {s t : Text} {x : Text × Bool} (h : readResponse s = some (x, t)) : t.length < s.length := by
  unfold readResponse at h
  split at h
  · rename_i hlines
    have hu := length_readLines hlines
    split at h
    · obtain ⟨y, hy, he⟩ := Option.map_eq_some_iff.1 h
      cases he
      have := length_readBody hy
      omega
    · cases h
  · cases h

end Http1
