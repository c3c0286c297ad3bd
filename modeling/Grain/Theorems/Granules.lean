import Grain.Granules
import Grain.Lemmas.WriteSet

/-!
# A granule that was read can be read for a quarter of an hour

What the reader service answers to an address and a hash is a granule with that hash. If the granule was stored under the address at
some time, blocks may overwrite or delete it and store as many others as they like: once the events of these blocks are handled it
is answered still, as long as the cache is not cleaned up more than a quarter of an hour later and no synchronisation writes to the
address (`run_keeps`). A request over HTTP is answered as the message is (`requestIncoming_eq`).
-/

namespace Grain

namespace Granules

variable {blake2bHash : String → String}

/-! ## What a block overwrites -/

theorem getElem?_writeGranulesBatch (db : StdMap String String) (v : Batch) (k : String) :
    (writeGranulesBatch db v)[k]? = (v.cells[k]?).or (if k ∈ v.deleted then none else db[k]?) := by
  have hkeys : (v.cells.toList.map (·.1)).Nodup := by
    rw [Std.ExtTreeMap.map_fst_toList_eq_keys]
    exact v.cells.nodup_keys
  obtain ⟨h₁, h₂⟩ := getElem?_foldl_insert_eq hkeys (v.deleted.toList.foldl (fun m k => m.erase k) db) k
  unfold writeGranulesBatch
  cases hk : v.cells[k]? with
  | none =>
    have hnot : k ∉ v.cells.toList.map (·.1) := by
      intro hm
      obtain ⟨⟨q, b⟩, hz, rfl⟩ := List.mem_map.1 hm
      rw [Std.ExtTreeMap.mem_toList_iff_getElem?_eq_some.1 hz] at hk
      cases hk
    rw [h₂ hnot, getElem?_foldl_erase_eq]
    simp
  | some b => exact h₁ b (Std.ExtTreeMap.mem_toList_iff_getElem?_eq_some.2 hk)

theorem staleGranules_hash {db : StdMap String String} {d : Batch} {z : String × String}
    (hz : z ∈ staleGranules blake2bHash db d) : blake2bHash z.2 = z.1 ∧ z.2 ≠ "" := by
  unfold staleGranules at hz
  rcases List.mem_append.1 hz with hz | hz <;> obtain ⟨x, -, hx⟩ := List.mem_filterMap.1 hz
  · split at hx
    · split at hx
      · next hne =>
        cases hx
        exact ⟨rfl, hne.1⟩
      · cases hx
    · cases hx
  · split at hx
    · split at hx
      · next hne =>
        cases hx
        exact ⟨rfl, hne⟩
      · cases hx
    · cases hx

/-- A granule that is no longer stored after the block is among those that the reader service is told of. -/
theorem mem_staleGranules {db : StdMap String String} {d : Batch} {k b : String} (hdb : db[k]? = some b) (hb : b ≠ "")
    (hgone : (writeGranulesBatch db d)[k]? ≠ some b) : (blake2bHash b, b) ∈ staleGranules blake2bHash db d := by
  rw [getElem?_writeGranulesBatch] at hgone
  unfold staleGranules
  refine List.mem_append.2 ?_
  cases hc : d.cells[k]? with
  | some x =>
    rw [hc] at hgone
    have hne : b ≠ x := fun h => hgone (by rw [h]; rfl)
    refine .inl (List.mem_filterMap.2 ⟨(k, x), Std.ExtTreeMap.mem_toList_iff_getElem?_eq_some.2 hc, ?_⟩)
    dsimp only
    rw [hdb]
    exact if_pos ⟨hb, hne⟩
  | none =>
    rw [hc, Option.none_or] at hgone
    have hdel : k ∈ d.deleted := by
      by_contra hnot
      rw [if_neg hnot] at hgone
      exact hgone hdb
    refine .inr (List.mem_filterMap.2 ⟨k, Std.ExtTreeSet.mem_toList.2 hdel, ?_⟩)
    rw [hdb]
    exact if_pos hb

/-! ## The cache -/

/-- An event is put into the cache: a hash that it has is there with the time, and the others stay. -/
theorem getElem?_foldl_stale (v : List (String × String)) (now : Int) (m : StdMap String (String × Int)) (h : String) :
    (∃ x, (h, x) ∈ v ∧ (v.foldl (fun m z => m.insert z.1 (z.2, now)) m)[h]? = some (x, now)) ∨
      h ∉ v.map (·.1) ∧ (v.foldl (fun m z => m.insert z.1 (z.2, now)) m)[h]? = m[h]? := by
  induction v generalizing m with
  | nil => exact .inr ⟨List.not_mem_nil, rfl⟩
  | cons z v ih =>
    rw [List.foldl_cons]
    rcases ih (m.insert z.1 (z.2, now)) with ⟨x, hx, heq⟩ | ⟨hnot, heq⟩
    · exact .inl ⟨x, List.mem_cons_of_mem z hx, heq⟩
    · rw [StdMap.getElem?_insert] at heq
      by_cases hz : z.1 = h
      · rw [if_pos hz] at heq
        refine .inl ⟨z.2, ?_, heq⟩
        rw [← hz]
        exact List.mem_cons_self
      · rw [if_neg hz] at heq
        refine .inr ⟨?_, heq⟩
        rw [List.map_cons, List.mem_cons, not_or]
        exact ⟨fun h => hz h.symm, hnot⟩

/-- What is in the cache or on the way to it is stored under its hash. -/
structure Hashed (blake2bHash : String → String) (s : Reader) : Prop where
  queued : ∀ v ∈ s.queue, ∀ z ∈ v, blake2bHash z.2 = z.1 ∧ z.2 ≠ ""
  cached : ∀ (h x : String) (ts : Int), s.staleCache[h]? = some (x, ts) → blake2bHash x = h ∧ x ≠ ""

theorem Hashed.step {s : Reader} (hs : Hashed blake2bHash s) (st : Step) : Hashed blake2bHash (st.run blake2bHash s) := by
  cases st with
  | blockDBStore d last =>
    refine ⟨fun v hv z hz => ?_, hs.cached⟩
    simp only [Step.run, Reader.blockDBStore] at hv
    split at hv
    · rcases List.mem_append.1 hv with hold | hnew
      · exact hs.queued v hold z hz
      · obtain rfl := List.mem_singleton.1 hnew
        exact staleGranules_hash hz
    · exact hs.queued v hv z hz
  | getGranulesRSP v => exact ⟨hs.queued, hs.cached⟩
  | onStaleGranules now =>
    cases hq : s.queue with
    | nil => simpa [Step.run, Reader.onStaleGranules, hq] using hs
    | cons v queue =>
      simp only [Step.run, Reader.onStaleGranules, hq]
      refine ⟨fun w hw => hs.queued w (by rw [hq]; exact List.mem_cons_of_mem v hw), fun h x ts hx => ?_⟩
      rcases getElem?_foldl_stale v now s.staleCache h with ⟨y, hy, heq⟩ | ⟨-, heq⟩
      · obtain ⟨rfl, -⟩ := Prod.mk.inj (Option.some.inj (heq.symm.trans hx))
        exact hs.queued v (by rw [hq]; exact List.mem_cons_self) (h, y) hy
      · exact hs.cached h x ts (heq.symm.trans hx)
  | onTimer now =>
    refine ⟨hs.queued, fun h x ts hx => ?_⟩
    simp only [Step.run, Reader.cleanupStale] at hx
    rw [Std.ExtTreeMap.getElem?_filter'] at hx
    exact hs.cached h x ts (Option.filter_eq_some_iff.1 hx).1

theorem Hashed.run {s : Reader} (hs : Hashed blake2bHash s) (steps : List Step) : Hashed blake2bHash (run blake2bHash steps s) := by
  induction steps generalizing s with
  | nil => exact hs
  | cons st steps ih => exact ih (hs.step st)

theorem hashed_init (db : StdMap String String) : Hashed blake2bHash { db := db } :=
  ⟨List.forall_mem_nil _, fun h x ts hx => by simp at hx⟩

/-! ## A granule that was stored -/

/-- A granule with the hash is stored under the key, or the reader service has one since the time, or will be told of one. -/
def Kept (blake2bHash : String → String) (k hash : String) (since : Int) (s : Reader) : Prop :=
  (∃ b, s.db[k]? = some b ∧ b ≠ "" ∧ blake2bHash b = hash) ∨ (∃ v ∈ s.queue, ∃ b, (hash, b) ∈ v) ∨
    ∃ b ts, since ≤ ts ∧ s.staleCache[hash]? = some (b, ts)

/-- The step is not before the time, does not clean up what is younger, and no synchronisation writes to the key. -/
def Step.Within (k : String) (since : Int) : Step → Prop
  | .blockDBStore _ _ => True
  | .getGranulesRSP v => v.cells[k]? = none ∧ k ∉ v.deleted
  | .onStaleGranules now => since ≤ now
  | .onTimer now => now ≤ since + staleTtlSec

theorem Kept.step {k hash : String} {since : Int} {s : Reader} (h : Kept blake2bHash k hash since s) {st : Step}
    (hst : st.Within k since) : Kept blake2bHash k hash since (st.run blake2bHash s) := by
  cases st with
  | blockDBStore d last =>
    simp only [Step.run, Reader.blockDBStore]
    rcases h with ⟨b, hdb, hb, rfl⟩ | ⟨v, hv, hvb⟩ | h
    · by_cases hgone : (writeGranulesBatch s.db (d.add "...last_block..." last))[k]? = some b
      · exact .inl ⟨b, hgone, hb, rfl⟩
      · have hmem : (blake2bHash b, b) ∈ staleGranules blake2bHash s.db _ := mem_staleGranules hdb hb hgone
        refine .inr (.inl ⟨_, ?_, b, hmem⟩)
        dsimp only
        rw [if_pos (List.ne_nil_of_mem hmem)]
        exact List.mem_append_right _ List.mem_cons_self
    · refine .inr (.inl ⟨v, ?_, hvb⟩)
      dsimp only
      split
      · exact List.mem_append_left _ hv
      · exact hv
    · exact .inr (.inr h)
  | getGranulesRSP v =>
    refine h.imp_left fun ⟨b, hdb, hb⟩ => ⟨b, ?_, hb⟩
    simp only [Step.run]
    rw [getElem?_writeGranulesBatch, hst.1, if_neg hst.2]
    exact hdb
  | onStaleGranules now =>
    cases hq : s.queue with
    | nil => simpa [Step.run, Reader.onStaleGranules, hq] using h
    | cons v queue =>
      simp only [Step.run, Reader.onStaleGranules, hq]
      rcases h with h | ⟨w, hw, b, hwb⟩ | ⟨b, ts, hts, h⟩
      · exact .inl h
      · rw [hq] at hw
        rcases List.mem_cons.1 hw with rfl | hw
        · right; right
          rcases getElem?_foldl_stale w now s.staleCache hash with ⟨y, -, heq⟩ | ⟨hnot, -⟩
          · exact ⟨y, now, hst, heq⟩
          · exact absurd (List.mem_map.2 ⟨_, hwb, rfl⟩) hnot
        · exact .inr (.inl ⟨w, hw, b, hwb⟩)
      · right; right
        rcases getElem?_foldl_stale v now s.staleCache hash with ⟨y, -, heq⟩ | ⟨-, heq⟩
        · exact ⟨y, now, hst, heq⟩
        · exact ⟨b, ts, hts, heq.trans h⟩
  | onTimer now =>
    refine h.imp_right (Or.imp_right fun ⟨b, ts, hts, h⟩ => ⟨b, ts, hts, ?_⟩)
    have hlt : ¬ ts + staleTtlSec < now := by
      have : now ≤ since + staleTtlSec := hst
      omega
    simp only [Step.run, Reader.cleanupStale]
    rw [Std.ExtTreeMap.getElem?_filter', h]
    simp [Option.filter, hlt]

theorem Kept.run {k hash : String} {since : Int} {s : Reader} (h : Kept blake2bHash k hash since s) (steps : List Step)
    (hst : ∀ st ∈ steps, st.Within k since) : Kept blake2bHash k hash since (run blake2bHash steps s) := by
  induction steps generalizing s with
  | nil => exact h
  | cons st steps ih => exact ih (h.step (hst st List.mem_cons_self)) fun st' h' => hst st' (List.mem_cons_of_mem st h')

/-! ## What is answered -/

theorem current_found {s : Reader} {addr hash : String} (h : (s.current blake2bHash addr hash).found = true) (hhash : hash ≠ "") :
    blake2bHash (s.current blake2bHash addr hash).body = hash := by
  unfold Reader.current at h ⊢
  split at h
  · split at h
    · next hc =>
      rw [if_pos hc]
      exact hc.2.resolve_left hhash
    · cases h
  · cases h

theorem Hashed.getStale {s : Reader} (hs : Hashed blake2bHash s) {hash body : String} (h : s.getStale hash = some body) :
    blake2bHash body = hash := by
  obtain ⟨⟨x, ts⟩, hx, rfl⟩ := Option.map_eq_some_iff.1 h
  exact (hs.cached hash x ts hx).1

/-- An answer has a granule with the hash that is asked for. -/
theorem getGranuleREQ_hash {s : Reader} (hs : Hashed blake2bHash s) {full : Bool} {addr hash : String}
    (h : (s.getGranuleREQ blake2bHash full addr hash).found = true) (hhash : hash ≠ "") :
    blake2bHash (s.getGranuleREQ blake2bHash full addr hash).body = hash := by
  unfold Reader.getGranuleREQ at h ⊢
  split at h
  · cases h
  next h₁ =>
  rw [if_neg h₁]
  split at h
  · cases h
  next h₂ =>
  rw [if_neg h₂]
  dsimp only at h ⊢
  split at h
  · next hc =>
    rw [if_pos hc]
    cases hg : s.getStale hash with
    | none =>
      rw [hg] at h
      exact current_found h hhash
    | some body => exact hs.getStale hg
  · next hc =>
    rw [if_neg hc]
    exact current_found h hhash

/-- What is kept is answered once no event is waiting. -/
theorem Kept.found {k hash : String} {since : Int} {s : Reader} (h : Kept blake2bHash k hash since s) (hqueue : s.queue = [])
    (hk : k.length = 32) (hlen : hash.length = 32) : (s.getGranuleREQ blake2bHash true k hash).found = true := by
  have hne : hash ≠ "" := by
    intro hnil
    rw [hnil] at hlen
    cases hlen
  unfold Reader.getGranuleREQ
  rw [if_neg (by simp [hk]), if_neg (by simp [hlen])]
  dsimp only
  rcases h with ⟨b, hdb, hb, hbh⟩ | ⟨v, hv, -⟩ | ⟨b, ts, -, h⟩
  · have hcurrent : (s.current blake2bHash k hash).found = true := by
      unfold Reader.current
      rw [hdb]
      dsimp only
      rw [if_pos ⟨hb, .inr hbh⟩]
    rw [if_neg (by simp [hcurrent])]
    exact hcurrent
  · rw [hqueue] at hv
    cases hv
  · split
    · unfold Reader.getStale
      rw [h]
      rfl
    · next hc => simpa [hne] using hc

/-- A granule that is stored under an address at some time is answered to a request with its hash, whatever blocks are stored from
then on, once the reader service has handled their events; as long as no synchronisation writes to the address, and the cache is not
cleaned up more than a quarter of an hour later. -/
theorem run_keeps (db : StdMap String String) (before after : List Step) (k b : String) (since : Int) (hk : k.length = 32)
    (hb : b ≠ "") (hlen : (blake2bHash b).length = 32) (hdb : (run blake2bHash before { db := db }).db[k]? = some b)
    (hst : ∀ st ∈ after, st.Within k since)
    (hqueue : (run blake2bHash after (run blake2bHash before { db := db })).queue = []) :
    let rsp := (run blake2bHash after (run blake2bHash before { db := db })).getGranuleREQ blake2bHash true k (blake2bHash b)
    rsp.found = true ∧ blake2bHash rsp.body = blake2bHash b := by
  intro rsp
  have hbefore : Hashed blake2bHash (run blake2bHash before { db := db }) := (hashed_init db).run before
  have hkept : Kept blake2bHash k (blake2bHash b) since _ := Kept.run (.inl ⟨b, hdb, hb, rfl⟩) after hst
  have hfound := hkept.found hqueue hk hlen
  have hne : blake2bHash b ≠ "" := by
    intro hnil
    rw [hnil] at hlen
    cases hlen
  exact ⟨hfound, getGranuleREQ_hash (hbefore.run after) hfound hne⟩

/-- A granule that the next block overwrites. -/
theorem run_keeps_sample :
    let k := "aaaaaaaaaaaaaaaaaaaaaaaaaaaaaaaa"
    let b := "a granule of thirty-two letters."
    let steps : List Step := [.blockDBStore (({} : Batch).add k "another granule") "2", .onStaleGranules 10, .onTimer 900]
    let s := run id steps (run id [.blockDBStore (({} : Batch).add k b) "1"] { db := ∅ })
    s.db[k]? = some "another granule" ∧ (s.getGranuleREQ id true k b).found = true ∧
      id (s.getGranuleREQ id true k b).body = id b := by
  intro k b steps s
  have hwithin : ∀ st ∈ steps, st.Within k 10 := by
    intro st hst
    simp only [steps, List.mem_cons, List.not_mem_nil, or_false] at hst
    rcases hst with rfl | rfl | rfl
    · trivial
    · exact Int.le_refl 10
    · show (900 : Int) ≤ 10 + staleTtlSec
      decide
  exact ⟨by decide +kernel, run_keeps ∅ [.blockDBStore (({} : Batch).add k b) "1"] steps k b 10 (by decide +kernel)
    (by decide +kernel) (by decide +kernel) (by decide +kernel) hwithin (by decide +kernel)⟩

/-! ## Over HTTP -/

/-- The text of an answer. -/
def httpOf (rsp : GetGranuleRSP) : Response :=
  if rsp.found then
    { body := "\x7b\"body\":\"" ++ base16Encode rsp.body ++ "\",\"stale\":" ++ (if rsp.stale then "true" else "false") ++ "\x7d" }
  else { status := 404, body := "\x7b\"error\":\"not found\"\x7d" }

/-- A request over HTTP is answered as the message with the same address and hash is. -/
theorem requestIncoming_eq (s : Reader) (uri addr hash : String) (huri : "/granule".toList.isPrefixOf uri.toList = true)
    (haddr : base16Decode ((paramsOf uri)["addr"]?.getD "") = .ok addr)
    (hhash : base16Decode ((paramsOf uri)["hash"]?.getD "") = .ok hash) (hlen : addr.length = 32)
    (hlen' : hash = "" ∨ hash.length = 32) :
    s.requestIncoming blake2bHash uri = .ok (some (httpOf (s.getGranuleREQ blake2bHash true addr hash))) := by
  have hne : (paramsOf uri)["addr"]?.getD "" ≠ "" := by
    intro hnil
    rw [hnil] at haddr
    obtain rfl : "" = addr := Except.ok.inj haddr
    cases hlen
  have hexpected : (if (paramsOf uri)["hash"]?.getD "" = "" then .ok "" else base16Decode ((paramsOf uri)["hash"]?.getD ""))
      = .ok hash := by
    split
    · next hnil =>
      rw [hnil] at hhash
      exact hhash
    · exact hhash
  have hok : ¬(hash ≠ "" ∧ hash.length ≠ 32) := fun h => hlen'.elim h.1 h.2
  unfold Reader.requestIncoming Reader.getGranuleREQ Reader.current
  rw [huri]
  simp only [Bool.not_true, Bool.false_eq_true, if_false]
  rw [if_neg hne, haddr]
  dsimp only
  rw [if_neg (not_not.2 hlen), if_neg (not_not.2 hlen), hexpected]
  dsimp only
  rw [if_neg hok, if_neg hok]
  -- the granule under the address comes first, then the cache
  cases hdb : s.db[addr]? with
  | none =>
    by_cases hnil : hash = ""
    · simp [hnil, httpOf]
    · cases s.getStale hash <;> simp [hnil, httpOf, String.append_assoc]
  | some v =>
    by_cases hv : v ≠ "" ∧ (hash = "" ∨ blake2bHash v = hash)
    · simp [hv, httpOf, String.append_assoc]
    · by_cases hnil : hash = ""
      · obtain rfl : v = "" := by simpa [hnil] using hv
        simp [hnil, httpOf]
      · have hcur : ¬(¬v = "" ∧ blake2bHash v = hash) := fun h => hv ⟨h.1, .inr h.2⟩
        cases s.getStale hash <;> simp [hnil, hcur, httpOf, String.append_assoc]

end Granules

end Grain
