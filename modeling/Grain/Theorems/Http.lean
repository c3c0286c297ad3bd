import Grain.Http

/-!
# Requests on one connection

What the server passes on for a request should be that request's alone. The context that the callbacks fill is left behind only
by a chunked request, a `GET` and a `POST`, and a header whose value is empty is not entered before the next one begins. So the
requests of a connection are served apart exactly if all that are not chunked are of these two methods and have the headers that
the callbacks put together (`requests_isolated`).
-/

namespace Grain

/-! ## What is asked for -/

/-- The context of a `RequestIncoming`. -/
def HttpEvent.incoming? : HttpEvent → Option HttpContext
  | .requestIncoming req => some req
  | _ => none

/-- The number and the content of a chunk. -/
def HttpEvent.chunk? : HttpEvent → Option (Int × String)
  | .requestChunkReceived _ id chunk => some (id, chunk)
  | _ => none

/-- The headers of a list of names and values: a repeated name keeps its last value. -/
def headerMap (hs : List (String × String)) : StdMap String String := hs.foldl (fun m h => m.insert h.1 h.2) ∅

/-- The names and values of a request's headers. -/
def HttpRequest.headerList (rq : HttpRequest) : List (String × String) := rq.headers.map fun h => (h.name, h.value)

/-- The context is that of the request: its method, url, headers and body. -/
structure HttpContext.Of (c : HttpContext) (rq : HttpRequest) (body : String) : Prop where
  method : c.method = llhttpMethodName rq.method ∧ c.methodInt = rq.method
  url : c.url = rq.url
  headers : c.headers = headerMap rq.headerList
  body : c.body.getD "" = body

/-- The events of a request: if it is not chunked one `RequestIncoming`, with what belongs to the request; if it is, chunks
numbered from 0 that make up the body. -/
def HttpRequest.Served (rq : HttpRequest) (ev : List HttpEvent) : Prop :=
  match rq.content with
  | .whole body => ∃ c, ev.filterMap HttpEvent.incoming? = [c] ∧ c.Of rq body
  | .chunked chunks _ =>
    (ev.filterMap HttpEvent.chunk?).map (·.1) = (List.range (ev.filterMap HttpEvent.chunk?).length).map Int.ofNat ∧
      String.join ((ev.filterMap HttpEvent.chunk?).map (·.2)) = String.join (chunks.map (·.1))

/-- A request with the callbacks that the parser made of it. -/
structure Exchange where
  request : HttpRequest
  callbacks : List Callback
  calls : request.Calls callbacks

/-- Every request of the connection is served as if it were the only one. -/
def PipelineServed (K : String → String) (xs : List Exchange) : Prop :=
  ∀ pre x post, xs = pre ++ x :: post → ∃ ev c ev' c',
    runCallbacks K {} (pre.flatMap Exchange.callbacks) = .ok (ev, c) ∧
    runCallbacks K c x.callbacks = .ok (ev', c') ∧ x.request.Served ev'

/-- The headers as the callbacks put them together: a name without a value is continued by the next name. -/
def joinHeaders : String → String → List (String × String) → List (String × String)
  | field, value, [] => if field ≠ "" then [(field, value)] else []
  | field, value, h :: hs =>
    if value ≠ "" then (field, value) :: joinHeaders h.1 h.2 hs else joinHeaders (field ++ h.1) h.2 hs

/-- The method leaves the context behind and the headers are those that the callbacks put together; or there are at most `2 ^ 31`
chunks. -/
def HttpRequest.Servable (rq : HttpRequest) : Prop :=
  match rq.content with
  | .whole _ => (rq.method = .get ∨ rq.method = .post) ∧ headerMap (joinHeaders "" "" rq.headerList) = headerMap rq.headerList
  | .chunked chunks _ => chunks.length ≤ 2 ^ 31

/-! ## Running the callbacks -/

section Run

variable {K : String → String}

/-- The callbacks pass on the events and leave the context. -/
def Runs (K : String → String) (c : HttpContext) (ks : List Callback) (ev : List HttpEvent) (d : HttpContext) :
    Prop := runCallbacks K c ks = .ok (ev, d)

theorem Runs.nil (c : HttpContext) : Runs K c [] [] c := rfl

theorem Runs.cons {c d e : HttpContext} {k : Callback} {ks : List Callback} {l l' : List HttpEvent}
    (hk : k.run K c = .ok (l, d)) (hks : Runs K d ks l' e) :
    Runs K c (k :: ks) (l ++ l') e := by
  unfold Runs at hks ⊢
  simp only [runCallbacks, hk, bind, Except.bind, hks]

/-- What follows callbacks that end runs on from where they end. -/
theorem Runs.append_eq {c d : HttpContext} {ks : List Callback} {l : List HttpEvent} (h : Runs K c ks l d)
    (ks' : List Callback) :
    runCallbacks K c (ks ++ ks') = (runCallbacks K d ks').map fun x => (l ++ x.1, x.2) := by
  induction ks generalizing c l with
  | nil =>
    obtain ⟨rfl, rfl⟩ : [] = l ∧ c = d := by simpa [Runs, runCallbacks] using h
    rcases hr : runCallbacks K c ks' with e | x
    · simp [hr, Except.map]
    · simp [hr, Except.map]
  | cons k ks ih =>
    unfold Runs at h
    rcases hk : k.run K c with e1 | ⟨l1, c1⟩
    · simp [runCallbacks, hk, bind, Except.bind] at h
    · rcases hr : runCallbacks K c1 ks with e2 | ⟨l2, c2⟩
      · simp [runCallbacks, hk, hr, bind, Except.bind] at h
      · simp only [runCallbacks, hk, hr, bind, Except.bind, Except.ok.injEq, Prod.mk.injEq] at h
        obtain ⟨rfl, rfl⟩ := h
        have h2 := ih (c := c1) (l := l2) hr
        simp only [List.cons_append, runCallbacks, hk, bind, Except.bind, h2]
        rcases runCallbacks K c2 ks' with e | x
        · rfl
        · simp [Except.map]

/-- The events of two parts, one after the other. -/
theorem Runs.append {c d e : HttpContext} {ks ks' : List Callback} {l l' : List HttpEvent}
    (h : Runs K c ks l d) (h' : Runs K d ks' l' e) :
    Runs K c (ks ++ ks') (l ++ l') e := by
  unfold Runs at h' ⊢
  rw [h.append_eq, h']
  rfl

/-- A url in pieces. -/
theorem runs_url (c : HttpContext) (pieces : List String) :
    Runs K c (pieces.map .url) [] { c with url := c.url ++ String.join pieces } := by
  induction pieces generalizing c with
  | nil => simp [Runs, runCallbacks]
  | cons p ps ih =>
    have h := ih (onUrl c p)
    simp only [onUrl, String.append_assoc] at h
    simpa [String.append_assoc] using Runs.cons (l := []) rfl h

/-! ### Headers -/

/-- A header as a whole. -/
def absorb (c : HttpContext) (h : Header) : HttpContext := onHeaderValue (onHeaderField c h.name) h.value

theorem runs_headerValue (c : HttpContext) (pieces : List String) :
    Runs K c (pieces.map .headerValue) [] (onHeaderValue c (String.join pieces)) := by
  induction pieces generalizing c with
  | nil => simp [Runs, runCallbacks, onHeaderValue]
  | cons p ps ih =>
    have h := ih (onHeaderValue c p)
    simp only [onHeaderValue, String.append_assoc] at h
    simpa [onHeaderValue, String.append_assoc] using Runs.cons (l := []) rfl h

/-- After the first piece of a name no value is held. -/
theorem currentValue_onHeaderField (c : HttpContext) (piece : String) : (onHeaderField c piece).currentValue = "" := by
  unfold onHeaderField
  split
  · rfl
  · rename_i hv
    simpa using hv

/-- A name in two pieces is the name in one. -/
theorem onHeaderField_append (c : HttpContext) (p q : String) :
    onHeaderField (onHeaderField c p) q = onHeaderField c (p ++ q) := by
  have hv := currentValue_onHeaderField c p
  unfold onHeaderField at hv ⊢
  split
  · simp
  · rename_i hc
    simp only [hc, if_false] at hv ⊢
    simp [String.append_assoc]

theorem runs_headerField (c : HttpContext) (pieces : List String) (hne : pieces ≠ []) :
    Runs K c (pieces.map .headerField) [] (onHeaderField c (String.join pieces)) := by
  induction pieces generalizing c with
  | nil => exact absurd rfl hne
  | cons p ps ih =>
    have hk : Callback.run K c (.headerField p) = .ok ([], onHeaderField c p) := rfl
    by_cases hps : ps = []
    · subst hps
      simpa using Runs.cons hk (Runs.nil _)
    · have h := ih (onHeaderField c p) hps
      rw [onHeaderField_append] at h
      simpa using Runs.cons hk h

/-- The pieces of a header do what the header does as a whole. -/
theorem runs_header (c : HttpContext) {h : Header} {ks : List Callback} (hk : h.Calls ks) :
    Runs K c ks [] (absorb c h) := by
  obtain ⟨names, values, hn, hv, rfl⟩ := hk
  have hne : names ≠ [] := by
    rintro rfl
    exact h.name_ne hn.symm
  have h1 := runs_headerField (K := K) c names hne
  have h2 := runs_headerValue (K := K) (onHeaderField c (String.join names)) values
  rw [hn] at h1 h2
  rw [hv] at h2
  exact h1.append h2

theorem runs_headers (c : HttpContext) {hs : List Header} {ks : List Callback} (h : HeaderCalls hs ks) :
    Runs K c ks [] (hs.foldl absorb c) := by
  induction h generalizing c with
  | nil => exact Runs.nil c
  | cons hk hks ih => exact (runs_header c hk).append (ih (absorb c _))

/-- The fields of a context that headers leave alone. -/
def HttpContext.withHeaders (c : HttpContext) (m : StdMap String String) (field value : String) : HttpContext :=
  { c with headers := m, currentField := field, currentValue := value }

/-- The headers with the one that is held. -/
def HttpContext.closed (c : HttpContext) : StdMap String String :=
  if c.currentField ≠ "" then c.headers.insert c.currentField c.currentValue else c.headers

/-- Headers change only the headers, which become those that the callbacks put together. -/
theorem foldl_absorb (c : HttpContext) (hs : List Header) :
    (∃ m f v, hs.foldl absorb c = c.withHeaders m f v) ∧
      (hs.foldl absorb c).closed =
        (joinHeaders c.currentField c.currentValue (hs.map fun h => (h.name, h.value))).foldl (fun m h => m.insert h.1 h.2)
          c.headers := by
  induction hs generalizing c with
  | nil =>
    refine ⟨⟨c.headers, c.currentField, c.currentValue, rfl⟩, ?_⟩
    unfold HttpContext.closed
    by_cases hf : c.currentField ≠ ""
    · simp [joinHeaders, hf]
    · simp [joinHeaders, hf]
  | cons h hs ih =>
    obtain ⟨⟨m, f, v, h1⟩, h2⟩ := ih (absorb c h)
    simp only [List.foldl_cons, List.map_cons, joinHeaders]
    refine ⟨⟨m, f, v, ?_⟩, ?_⟩
    · rw [h1]
      unfold absorb onHeaderValue onHeaderField HttpContext.withHeaders
      split <;> rfl
    · rw [h2]
      unfold absorb onHeaderValue onHeaderField
      split
      · simp
      · rename_i hc
        have hv : c.currentValue = "" := by simpa using hc
        simp [hv]

/-! ### The content -/

/-- A body in pieces. -/
theorem runs_body (c : HttpContext) (pieces : List String) : ∃ body,
    Runs K c (pieces.map .body) [] { c with body := body } ∧
      body.getD "" = c.body.getD "" ++ String.join pieces ∧ (pieces ≠ [] → body.isSome) := by
  induction pieces generalizing c with
  | nil => exact ⟨c.body, rfl, by simp, by simp⟩
  | cons p ps ih =>
    obtain ⟨body, h1, h2, h3⟩ := ih (onBody c p)
    refine ⟨body, ?_, ?_, ?_⟩
    · exact Runs.cons (l := []) rfl h1
    · rw [h2]
      simp [onBody, String.append_assoc]
    · intro _
      cases ps with
      | nil =>
        have he : onBody c p = { onBody c p with body := body } := by
          simpa [Runs, runCallbacks] using h1
        have hb := congrArg HttpContext.body he
        simp [onBody] at hb
        simp [← hb]
      | cons q qs => exact h3 (List.cons_ne_nil _ _)

/-- The number of a chunk and what is numbered after it. -/
def chunkEvents : Int → List String → List (Int × String)
  | _, [] => []
  | id, s :: l => (id, s) :: chunkEvents (wrap32 (id + 1)) l

/-- A list of chunks: one event each, and nothing is held after it. -/
theorem runs_chunks (c : HttpContext) {chunks : List {s : String // s ≠ ""}} {ks : List Callback} (h : ChunkCalls chunks ks) :
    ∃ ev d, Runs K c ks ev d ∧ ev.filterMap HttpEvent.chunk? = chunkEvents c.chunkId (chunks.map (·.1)) ∧
      d.isChunked = c.isChunked := by
  induction h generalizing c with
  | nil => exact ⟨[], c, rfl, rfl, rfl⟩
  | @cons chunk chunks pieces ks hp hks ih =>
    have hne : pieces ≠ [] := by
      rintro rfl
      exact chunk.2 hp.symm
    obtain ⟨body, hb1, hb2, hb3⟩ := runs_body (K := K) (onChunkHeader c chunk.1.length) pieces
    obtain ⟨s, hs⟩ := Option.isSome_iff_exists.1 (hb3 hne)
    obtain rfl : s = chunk.1 := by simpa [hs, onChunkHeader, hp] using hb2
    obtain ⟨ev, d, h1, h2, h3⟩ := ih { c with chunkId := wrap32 (c.chunkId + 1), body := none, chunkSize := 0 }
    have hc : Callback.run K { onChunkHeader c chunk.1.length with body := body } .chunkComplete =
        .ok ([.requestChunkReceived { c with body := body, chunkSize := chunk.1.length } c.chunkId chunk.1],
          { c with chunkId := wrap32 (c.chunkId + 1), body := none, chunkSize := 0 }) := by
      simp [Callback.run, onChunkComplete, onChunkHeader, hs]
    have hall := (Runs.cons (l := []) (k := .chunkHeader chunk.1.length) rfl hb1).append (Runs.cons hc h1)
    refine ⟨_, d, hall, ?_, h3⟩
    simp [HttpEvent.chunk?, chunkEvents, h2]

/-! ### A request -/

/-- The context when the headers are complete. -/
def HttpContext.complete (c : HttpContext) (p : Llhttp) : HttpContext :=
  { c with keepalive := p.keepAlive, upgrade := p.upgrade, headers := c.closed, method := llhttpMethodName p.method,
           methodInt := p.method, isChunked := c.isChunked || p.chunked }

theorem onHeadersComplete_eq (c : HttpContext) {p : Llhttp} (hu : p.upgrade = false) :
    onHeadersComplete K c p = (if p.chunked then [.requestIncoming (c.complete p)] else [], c.complete p) := by
  unfold onHeadersComplete HttpContext.complete HttpContext.closed
  cases hc : p.chunked <;> simp [hu]

/-- The callbacks of a request up to its content, on a new context. -/
theorem runs_until_content {rq : HttpRequest} {urls : List String} {hs : List Callback} (hu : String.join urls = rq.url)
    (hh : HeaderCalls rq.headers hs) :
    ∃ m f v, (HttpContext.withHeaders { url := rq.url } m f v).closed = headerMap (joinHeaders "" "" rq.headerList) ∧
      Runs K {} (.messageBegin :: urls.map .url ++ hs ++ [.headersComplete rq.llhttp])
        (if rq.content.isChunked then
          [.requestIncoming ((HttpContext.withHeaders { url := rq.url } m f v).complete rq.llhttp)] else [])
        ((HttpContext.withHeaders { url := rq.url } m f v).complete rq.llhttp) := by
  have h1 : Runs K {} (urls.map .url) [] { url := rq.url } := by
    simpa [hu] using runs_url (K := K) {} urls
  have h2 := runs_headers (K := K) { url := rq.url } hh
  obtain ⟨⟨m, f, v, h3⟩, h4⟩ := foldl_absorb { url := rq.url } rq.headers
  rw [h3] at h2 h4
  have hb := (Runs.cons (l := []) (k := .messageBegin) rfl h1).append h2
  have he : Callback.run K (HttpContext.withHeaders { url := rq.url } m f v) (.headersComplete rq.llhttp) = .ok _ :=
    congrArg Except.ok (onHeadersComplete_eq _ rfl)
  have hall := hb.append (Runs.cons he (Runs.nil _))
  simp only [List.nil_append, List.append_nil] at hall
  exact ⟨m, f, v, h4, hall⟩

/-- A request with a body, on a new context: nothing is passed on before its end. -/
theorem runs_whole {rq : HttpRequest} {ks : List Callback} {body : String} (hcalls : rq.Calls ks)
    (hc : rq.content = .whole body) :
    ∃ c : HttpContext, c.isChunked = false ∧ c.method = llhttpMethodName rq.method ∧ c.methodInt = rq.method ∧ c.url = rq.url ∧
      c.headers = headerMap (joinHeaders "" "" rq.headerList) ∧ c.body.getD "" = body ∧
      Runs K {} ks (onMessageComplete c).1 (onMessageComplete c).2 := by
  obtain ⟨urls, hs, cs, hu, hh, hcs, rfl⟩ := hcalls
  obtain ⟨m, f, v, hm, hrun⟩ := runs_until_content (K := K) hu hh
  have hch : rq.content.isChunked = false := by rw [hc]; rfl
  rw [hc] at hcs
  obtain ⟨pieces, hp, rfl⟩ := hcs
  obtain ⟨b, hb1, hb2, -⟩ := runs_body (K := K)
    ((HttpContext.withHeaders { url := rq.url } m f v).complete rq.llhttp) pieces
  rw [hch] at hrun
  refine ⟨{ (HttpContext.withHeaders { url := rq.url } m f v).complete rq.llhttp with body := b }, hch, rfl, rfl, rfl, hm, ?_, ?_⟩
  · rw [hb2, hp]
    exact String.empty_append
  · have hend : ∀ c, Callback.run K c .messageComplete = .ok ((onMessageComplete c).1, (onMessageComplete c).2) :=
      fun _ => rfl
    have hall := (hrun.append hb1).append (Runs.cons (hend _) (Runs.nil _))
    simp only [Bool.false_eq_true, if_false, List.nil_append, List.append_nil, List.append_assoc, List.cons_append] at hall ⊢
    exact hall

/-- A chunked request, on a new context: its chunks are passed on and a new context is left. -/
theorem runs_chunked {rq : HttpRequest} {ks : List Callback} {chunks : List {s : String // s ≠ ""}} {trailers : List Header}
    (hcalls : rq.Calls ks) (hc : rq.content = .chunked chunks trailers) :
    ∃ ev, Runs K {} ks ev {} ∧ ev.filterMap HttpEvent.chunk? = chunkEvents 0 (chunks.map (·.1)) := by
  obtain ⟨urls, hs, cs, hu, hh, hcs, rfl⟩ := hcalls
  obtain ⟨m, f, v, -, hrun⟩ := runs_until_content (K := K) hu hh
  have hch : rq.content.isChunked = true := by rw [hc]; rfl
  rw [hc] at hcs
  obtain ⟨k, t, hk, ht, rfl⟩ := hcs
  obtain ⟨ev, d, h1, h2, h3⟩ := runs_chunks (K := K)
    ((HttpContext.withHeaders { url := rq.url } m f v).complete rq.llhttp) hk
  have ht1 := runs_headers (K := K) (onChunkHeader d 0) ht
  obtain ⟨⟨m', f', v', ht2⟩, -⟩ := foldl_absorb (onChunkHeader d 0) trailers
  rw [ht2] at ht1
  have hd : ((onChunkHeader d 0).withHeaders m' f' v').isChunked = true := h3.trans hch
  -- the last chunk is empty, so nothing is held of it
  have hend : Callback.run K ((onChunkHeader d 0).withHeaders m' f' v') .chunkComplete =
      .ok ([], (onChunkHeader d 0).withHeaders m' f' v') := rfl
  have hfin : Callback.run K ((onChunkHeader d 0).withHeaders m' f' v') .messageComplete =
      .ok ([.requestChunkingCompleted ((onChunkHeader d 0).withHeaders m' f' v') d.chunkId], {}) := by
    simp only [Callback.run, onMessageComplete, hd, if_true]
    rfl
  rw [hch] at hrun
  have hcs1 := h1.append ((Runs.cons (l := []) (k := .chunkHeader 0) rfl ht1).append (Runs.cons hend (Runs.nil _)))
  have hall := (hrun.append hcs1).append (Runs.cons hfin (Runs.nil _))
  simp only [if_true, List.nil_append, List.append_nil, List.append_assoc, List.cons_append] at hall ⊢
  refine ⟨_, hall, ?_⟩
  simp only [List.filterMap_cons, List.filterMap_append, h2, HttpEvent.chunk?, List.filterMap_nil, List.append_nil]
  rfl

end Run

/-! ## The numbers of chunks -/

theorem wrap32_eq {n : Int} (h : -2 ^ 31 ≤ n ∧ n < 2 ^ 31) : wrap32 n = n := by
  unfold wrap32
  rw [Int.bmod_eq_iff (by decide)]
  omega

/-- The numbers count up as long as they are in the range of `int`. -/
theorem map_fst_chunkEvents (n : Nat) (l : List String) (h : n + l.length ≤ 2 ^ 31) :
    (chunkEvents n l).map (·.1) = (List.range' n l.length).map Int.ofNat := by
  induction l generalizing n with
  | nil => rfl
  | cons s l ih =>
    rw [List.length_cons] at h
    rw [List.length_cons, List.range'_succ, chunkEvents, List.map_cons, List.map_cons]
    cases l with
    | nil => rfl
    | cons s' l =>
      rw [List.length_cons] at h
      have hn : wrap32 ((n : Int) + 1) = ((n + 1 : Nat) : Int) := by
        rw [wrap32_eq (by omega)]
        omega
      rw [hn, ih (n + 1) (by rw [List.length_cons]; omega)]
      rfl

theorem map_snd_chunkEvents (id : Int) (l : List String) : (chunkEvents id l).map (·.2) = l := by
  induction l generalizing id with
  | nil => rfl
  | cons s l ih => simp [chunkEvents, ih]

/-- Every number is in the range of `int`. -/
theorem chunkEvents_lt (id : Int) (hid : id < 2 ^ 31) (l : List String) : ∀ x ∈ chunkEvents id l, x.1 < 2 ^ 31 := by
  induction l generalizing id with
  | nil => exact nofun
  | cons s l ih =>
    intro x hx
    rcases List.mem_cons.1 hx with rfl | hx
    · exact hid
    · refine ih (wrap32 (id + 1)) ?_ x hx
      have := Int.bmod_lt (x := id + 1) (m := 0x100000000) (by decide)
      unfold wrap32
      omega

/-- The numbers run from 0 exactly if there are at most `2 ^ 31` chunks. -/
theorem numbered_iff (l : List String) :
    ((chunkEvents 0 l).map (·.1) = (List.range (chunkEvents 0 l).length).map Int.ofNat) ↔ l.length ≤ 2 ^ 31 := by
  have hlen : (chunkEvents 0 l).length = l.length := by
    have := congrArg List.length (map_snd_chunkEvents 0 l)
    simpa using this
  rw [hlen]
  constructor
  · intro h
    by_contra hgt
    have hmem : (2 ^ 31 : Int) ∈ (List.range l.length).map Int.ofNat :=
      List.mem_map.2 ⟨2 ^ 31, List.mem_range.2 (by omega), rfl⟩
    rw [← h] at hmem
    obtain ⟨x, hx, he⟩ := List.mem_map.1 hmem
    have := chunkEvents_lt 0 (by decide) l x hx
    omega
  · intro h
    rw [List.range_eq_range']
    exact map_fst_chunkEvents 0 l (by omega)

/-! ## One request -/

section Request

variable {K : String → String} {rq : HttpRequest} {ks : List Callback}

/-- On a new context a request is served exactly if it can be, and then leaves a new one. -/
theorem served_iff (hcalls : rq.Calls ks) :
    ∃ ev c, Runs K {} ks ev c ∧ (rq.Served ev ↔ rq.Servable) ∧ (rq.Servable → c = {}) := by
  cases hc : rq.content with
  | chunked chunks trailers =>
    obtain ⟨ev, hrun, hev⟩ := runs_chunked (K := K) hcalls hc
    refine ⟨ev, {}, hrun, ?_, fun _ => rfl⟩
    unfold HttpRequest.Served HttpRequest.Servable
    simp only [hc, hev, numbered_iff, map_snd_chunkEvents, List.length_map, and_true]
  | whole body =>
    obtain ⟨c, h1, h2, h3, h4, h5, h6, hrun⟩ := runs_whole (K := K) hcalls hc
    refine ⟨_, _, hrun, ?_, ?_⟩
    · unfold HttpRequest.Served HttpRequest.Servable
      simp only [hc]
      constructor
      · rintro ⟨c', hev, hof⟩
        unfold onMessageComplete at hev
        rw [h1, h3] at hev
        have hone : (rq.method = .get ∨ rq.method = .post) ∧ c = c' := by
          by_cases hg : rq.method = .get
          · simp only [hg, Bool.false_eq_true, if_false, if_true] at hev
            exact ⟨.inl hg, by simpa [HttpEvent.incoming?] using hev⟩
          · by_cases hp : rq.method = .post
            · simp only [hp, Bool.false_eq_true, if_false, if_true] at hev
              exact ⟨.inr hp, by simpa [HttpEvent.incoming?] using hev⟩
            · simp [hg, hp] at hev
        obtain ⟨hm, rfl⟩ := hone
        exact ⟨hm, h5.symm.trans hof.headers⟩
      · rintro ⟨hm, hh⟩
        refine ⟨c, ?_, ⟨⟨h2, h3⟩, h4, h5.trans hh, h6⟩⟩
        unfold onMessageComplete
        rw [h1, h3]
        rcases hm with hm | hm <;> simp [hm, HttpEvent.incoming?]
    · intro hs
      unfold HttpRequest.Servable at hs
      simp only [hc] at hs
      unfold onMessageComplete
      rw [h1, h3]
      rcases hs.1 with hm | hm <;> simp [hm]

end Request

/-! ## A connection -/

/-- The requests of a connection are served apart exactly if every one that is not chunked is a `GET` or a `POST` with the
headers that the callbacks put together, and every chunked one has at most `2 ^ 31` chunks. -/
theorem requests_isolated (K : String → String) (xs : List Exchange) :
    PipelineServed K xs ↔ ∀ x ∈ xs, x.request.Servable := by
  induction xs with
  | nil =>
    refine ⟨fun _ => nofun, fun _ pre x post h => ?_⟩
    simp at h
  | cons y ys ih =>
    obtain ⟨ev, c, hrun, hiff, hnew⟩ := served_iff (K := K) y.calls
    constructor
    · intro h x hx
      have hy : y.request.Servable := by
        obtain ⟨ev1, c1, ev2, c2, h1, h2, h3⟩ := h [] y ys rfl
        obtain ⟨rfl, rfl⟩ : [] = ev1 ∧ ({} : HttpContext) = c1 := by simpa [runCallbacks] using h1
        rw [show runCallbacks K {} y.callbacks = _ from hrun] at h2
        cases h2
        exact hiff.1 h3
      obtain rfl := hnew hy
      rcases List.mem_cons.1 hx with rfl | hx
      · exact hy
      refine ih.1 (fun pre z post hz => ?_) x hx
      obtain ⟨ev1, c1, ev2, c2, h1, h2, h3⟩ := h (y :: pre) z post (by rw [hz]; rfl)
      -- the first request leaves a new context, so the others run as if it had not been there
      rw [List.flatMap_cons, hrun.append_eq] at h1
      rcases hr : runCallbacks K {} (pre.flatMap Exchange.callbacks) with e | ⟨ev3, c3⟩ <;> rw [hr] at h1
      · cases h1
      · cases h1
        exact ⟨ev3, c3, ev2, c2, rfl, h2, h3⟩
    · intro h pre x post hxs
      obtain rfl := hnew (h y List.mem_cons_self)
      cases pre with
      | nil =>
        obtain ⟨rfl, rfl⟩ := List.cons.inj hxs
        exact ⟨[], {}, ev, {}, rfl, hrun, hiff.2 (h y List.mem_cons_self)⟩
      | cons z pre =>
        obtain ⟨hz, hrest⟩ := List.cons.inj hxs
        subst hz
        obtain ⟨ev1, c1, ev2, c2, h1, h2, h3⟩ := ih.2 (fun x hx => h x (List.mem_cons_of_mem _ hx)) pre x post hrest
        refine ⟨ev ++ ev1, c1, ev2, c2, ?_, h2, h3⟩
        rw [List.flatMap_cons]
        exact hrun.append h1

/-- A `PUT` of `/a`. -/
def putExchange : Exchange where
  request := { method := .put, url := "/a", headers := [], keepAlive := true, content := .whole "" }
  callbacks := [.messageBegin, .url "/a",
    .headersComplete { method := .put, keepAlive := true, upgrade := false, chunked := false }, .messageComplete]
  calls := ⟨["/a"], [], [], rfl, .nil, ⟨[], rfl, rfl⟩, rfl⟩

/-- Nothing is passed on for a `PUT`. -/
theorem requests_isolated_false : ¬ ∀ xs : List Exchange, PipelineServed id xs := by
  intro h
  obtain ⟨ev, c, ev', c', h1, h2, h3⟩ := h [putExchange] [] putExchange [] rfl
  cases h1
  have hrun : ∃ d, runCallbacks id {} putExchange.callbacks = .ok ([], d) := ⟨_, rfl⟩
  obtain ⟨d, hd⟩ := hrun
  rw [hd] at h2
  cases h2
  obtain ⟨c, hc, -⟩ := h3
  cases hc

/-! ## Headers -/

theorem of_dropLast_cons {α : Type} {P : α → Prop} {x : α} {l : List α} (h : ∀ y ∈ (x :: l).dropLast, P y) :
    (l = [] ∨ P x) ∧ ∀ y ∈ l.dropLast, P y := by
  cases l with
  | nil => exact ⟨.inl rfl, nofun⟩
  | cons z l => exact ⟨.inr (h x (by simp)), fun y hy => h y (by simpa using .inr hy)⟩

theorem joinHeaders_map {field value : String} (hf : field ≠ "") {hs : List Header} (hv : hs = [] ∨ value ≠ "")
    (h : ∀ x ∈ hs.dropLast, x.value ≠ "") :
    joinHeaders field value (hs.map fun x => (x.name, x.value)) = (field, value) :: hs.map fun x => (x.name, x.value) := by
  induction hs generalizing field value with
  | nil => simp [joinHeaders, hf]
  | cons x hs ih =>
    have hv' : value ≠ "" := hv.resolve_left (List.cons_ne_nil _ _)
    obtain ⟨hx, hrest⟩ := of_dropLast_cons h
    rw [List.map_cons, joinHeaders, if_pos hv', ih x.name_ne hx hrest]

/-- The headers of a request are those that the callbacks put together, if none but the last has an empty value. -/
theorem joinHeaders_headerList {rq : HttpRequest} (h : ∀ x ∈ rq.headers.dropLast, x.value ≠ "") :
    joinHeaders "" "" rq.headerList = rq.headerList := by
  unfold HttpRequest.headerList
  cases hh : rq.headers with
  | nil => rfl
  | cons x hs =>
    rw [hh] at h
    obtain ⟨hx, hrest⟩ := of_dropLast_cons h
    rw [List.map_cons, joinHeaders, if_neg (by simp), String.empty_append]
    exact joinHeaders_map x.name_ne hx hrest

example : joinHeaders "" "" [("accept", ""), ("host", "a")] = [("accepthost", "a")] := by decide

end Grain
