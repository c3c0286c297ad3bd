import Grain.Lemmas.Pool
import Grain.Lemmas.Meta

/-!
# The transactions of a block

The leader puts the pooled transactions in the order of senders and nonces, enters them in the pool again, which is in the order
of the hashes, and lists the pool. The block has every pooled transaction once; those of a sender are in the order of their
nonces exactly where their hashes are, and a nonce that cannot be read stops the block.
-/

namespace Grain

open Prog

/-! ## Senders and nonces -/

/-- The address that `execute_block` takes a transaction to be from. -/
def TX.sender (Γ : Ctx) (z : TX) : Option String :=
  let hex := senderHex (Γ.yyjsonRead z.txBody)
  if hex = "" then none else (base16Decode hex).toOption

/-- The nonce of a transaction, if it can be read. -/
def TX.nonce (Γ : Ctx) (z : TX) : Option Int := (getNonce (Γ.yyjsonRead z.txBody)).toOption

/-- Of the nonces of a sender, in the order of the block, those that its check lets through: the sender's own is `n`, and each
one that is let through is followed by `incNonce`. -/
def admittedNonces : Int → List Int → List Int
  | _, [] => []
  | n, m :: l => if m = n then m :: admittedNonces (wrap64 (n + 1)) l else admittedNonces n l

/-- The nonces of a sender, in the order of the block. -/
def noncesOf (Γ : Ctx) (a : String) (trs : List TX) : List Int :=
  (trs.filter fun z => z.sender Γ = some a).filterMap (·.nonce Γ)

/-- Two transactions of one sender do not have their nonces the wrong way round. -/
def InOrder (Γ : Ctx) (y z : TX) : Prop :=
  ∀ a m n, y.sender Γ = some a → z.sender Γ = some a → y.nonce Γ = some m → z.nonce Γ = some n → m ≤ n

/-- The transactions of a block are those of the pool, each once, and those of one sender in the order of their nonces, so that
consecutive nonces from the sender's own on are all let through. -/
structure Assembled (Γ : Ctx) (pool : StdMap String TX) (trs : List TX) : Prop where
  once : trs.Nodup
  all : ∀ z, z ∈ trs ↔ ∃ k : String, pool[k]? = some z
  ordered : trs.Pairwise (InOrder Γ)
  runs : ∀ (a : String) (n : Int) (k : Nat), (∀ i < k, n + (i : Int) ∈ noncesOf Γ a trs) →
    ∀ i < k, n + (i : Int) ∈ admittedNonces n (noncesOf Γ a trs)

/-- Every nonce of the pool can be read, and for the transactions of one sender the order of the hashes is that of the nonces. -/
structure Sorts (Γ : NodeCtx) (pool : StdMap String TX) : Prop where
  readable : ∀ (k : String) (z : TX), pool[k]? = some z → (z.nonce Γ.ctx).isSome
  hashes : ∀ (j k : String) (y z : TX), pool[j]? = some y → pool[k]? = some z → Γ.thash y.getHash < Γ.thash z.getHash → InOrder Γ.ctx y z

/-- The leader gets as far as the transactions: it is not behind, no other leader is recorded, it has the heartbeat of the round,
the metadata of its window and a certificate. -/
structure Starts (Γ : NodeCtx) (s : NodeSt) : Prop where
  sync : s.st.sync.empty = true
  leader : s.notLeader Γ = false
  cert : ∃ hb mf lc u v, s.bt.leaderCert2 = some hb ∧ runNode (getMetaFull Γ hb.blockTimestamp) s = (.ok mf, u) ∧
    runNode (Node.tree Γ.ctx (makeLeaderCert Γ.ctx u.bt hb mf)) u = (.ok lc, v)

/-! ## Consecutive nonces -/

theorem inI64_nonce {Γ : Ctx} {z : TX} {n : Int} (h : z.nonce Γ = some n) : InI64 n := by
  unfold TX.nonce at h
  cases hn : getNonce (Γ.yyjsonRead z.txBody) with
  | error e =>
    rw [hn] at h
    cases h
  | ok m =>
    rw [hn] at h
    obtain rfl := Option.some.inj h
    unfold getNonce at hn
    split at hn
    · cases hn
    · split at hn
      · cases hn
      · obtain rfl := Except.ok.inj hn
        unfold atoll InI64
        dsimp only
        omega
      · split at hn
        · obtain rfl := Except.ok.inj hn
          exact inI64_getSint _
        · cases hn

theorem inI64_noncesOf {Γ : Ctx} {a : String} {trs : List TX} {n : Int} (h : n ∈ noncesOf Γ a trs) : InI64 n := by
  obtain ⟨z, -, hz⟩ := List.mem_filterMap.1 h
  exact inI64_nonce hz

/-- In a list in order every nonce of a run of consecutive ones is let through. -/
theorem mem_admittedNonces {l : List Int} (hl : l.Pairwise (· ≤ ·)) (hin : ∀ m ∈ l, InI64 m) {n : Int} {k : Nat}
    (h : ∀ i < k, n + (i : Int) ∈ l) : ∀ i < k, n + (i : Int) ∈ admittedNonces n l := by
  induction l generalizing n k with
  | nil =>
    intro i hi
    cases h i hi
  | cons m l ih =>
    obtain ⟨hm, hl⟩ := List.pairwise_cons.1 hl
    have hin' : ∀ x ∈ l, InI64 x := fun x hx => hin x (List.mem_cons_of_mem _ hx)
    intro i hi
    have hn : n ∈ m :: l := by simpa using h 0 (by omega)
    unfold admittedNonces
    split
    next heq =>
      subst heq
      rcases Nat.eq_zero_or_pos i with rfl | hpos
      · simp
      -- the nonce after the first one is that of another transaction, which is further on
      have hrest : ∀ j < k - 1, m + 1 + (j : Nat) ∈ l := by
        intro j hj
        have hj' := h (j + 1) (by omega)
        rcases List.mem_cons.1 hj' with hj' | hj'
        · exfalso
          push_cast at hj'
          omega
        · rwa [show m + 1 + (j : Int) = m + ((j + 1 : Nat) : Int) by push_cast; omega]
      have hnext : wrap64 (m + 1) = m + 1 := by
        have hmem := hrest 0 (by omega)
        exact wrap64_eq (by simpa using hin' _ hmem)
      rw [hnext]
      refine List.mem_cons_of_mem _ ?_
      have hi' := ih hl hin' hrest (i - 1) (by omega)
      rwa [show m + 1 + ((i - 1 : Nat) : Int) = m + (i : Int) by omega] at hi'
    next hne =>
      have hlt : m < n := by
        rcases List.mem_cons.1 hn with hn | hn
        · exact absurd hn.symm hne
        · exact lt_of_le_of_ne (hm n hn) hne
      refine ih hl hin' (fun j hj => ?_) i hi
      rcases List.mem_cons.1 (h j hj) with hj' | hj'
      · exfalso
        omega
      · exact hj'

/-- The nonces of a sender are in order where its transactions are. -/
theorem pairwise_noncesOf {Γ : Ctx} {trs : List TX} (h : trs.Pairwise (InOrder Γ)) (a : String) :
    (noncesOf Γ a trs).Pairwise (· ≤ ·) := by
  unfold noncesOf
  rw [List.pairwise_filterMap]
  have hf : (trs.filter fun z => z.sender Γ = some a).Pairwise (InOrder Γ) := h.filter _
  refine hf.imp_of_mem fun {y z} hy hz hyz m hm n hn => ?_
  have hsy : y.sender Γ = some a := by simpa using (List.mem_filter.1 hy).2
  have hsz : z.sender Γ = some a := by simpa using (List.mem_filter.1 hz).2
  exact hyz a m n hsy hsz hm hn

/-! ## The order of the leader -/

/-- A transaction is filed under its key and nonce. -/
def Filed (o : StdMap String (StdMap Int (List TX))) (z : TX) : Prop :=
  ∃ (k : String) (m : StdMap Int (List TX)) (n : Int) (l : List TX), o[k]? = some m ∧ m[n]? = some l ∧ z ∈ l

theorem filed_insert {o : StdMap String (StdMap Int (List TX))} {x z : TX} {n : Int} :
    Filed (o.insert x.pkEdBin ((o[x.pkEdBin]?.getD ∅).insert n ((o[x.pkEdBin]?.getD ∅)[n]?.getD [] ++ [x]))) z ↔
      Filed o z ∨ z = x := by
  constructor
  · rintro ⟨k, m, i, l, hm, hl, hz⟩
    rw [StdMap.getElem?_insert] at hm
    split at hm
    next hk =>
      subst hk
      obtain rfl := Option.some.inj hm
      rw [StdMap.getElem?_insert] at hl
      split at hl
      next hi =>
        subst hi
        obtain rfl := Option.some.inj hl
        rcases List.mem_append.1 hz with hz | hz
        · left
          cases hm : o[x.pkEdBin]? with
          | none => simp [hm] at hz
          | some m =>
            cases hl : m[n]? with
            | none => simp [hm, hl] at hz
            | some l => exact ⟨x.pkEdBin, m, n, l, hm, hl, by simpa [hm, hl] using hz⟩
        · exact .inr (List.mem_singleton.1 hz)
      next =>
        left
        cases hm : o[x.pkEdBin]? with
        | none => simp [hm] at hl
        | some m => exact ⟨x.pkEdBin, m, i, l, hm, by simpa [hm] using hl, hz⟩
    next => exact .inl ⟨k, m, i, l, hm, hl, hz⟩
  · rintro (⟨k, m, i, l, hm, hl, hz⟩ | rfl)
    · by_cases hk : x.pkEdBin = k
      · subst hk
        by_cases hi : n = i
        · subst hi
          refine ⟨x.pkEdBin, _, n, _, by rw [StdMap.getElem?_insert, if_pos rfl], by rw [StdMap.getElem?_insert, if_pos rfl], ?_⟩
          simp [hm, hl, hz]
        · refine ⟨x.pkEdBin, _, i, l, by rw [StdMap.getElem?_insert, if_pos rfl], ?_, hz⟩
          rw [StdMap.getElem?_insert, if_neg hi, hm]
          exact hl
      · exact ⟨k, m, i, l, by rw [StdMap.getElem?_insert, if_neg hk]; exact hm, hl, hz⟩
    · refine ⟨z.pkEdBin, _, n, _, by rw [StdMap.getElem?_insert, if_pos rfl], by rw [StdMap.getElem?_insert, if_pos rfl], ?_⟩
      simp

/-- The loop ends exactly where every nonce can be read, and files every transaction. -/
theorem orderTransactions_ok {Γ : Ctx} {zs : List TX} {o : StdMap String (StdMap Int (List TX))} :
    (∃ o', orderTransactions Γ zs o = .ok o') ↔ ∀ z ∈ zs, (z.nonce Γ).isSome := by
  induction zs generalizing o with
  | nil =>
    constructor
    · intro _ z hz
      cases hz
    · intro _
      exact ⟨o, rfl⟩
  | cons x zs ih =>
    unfold orderTransactions
    have hnonce : x.nonce Γ = (getNonce (Γ.yyjsonRead x.txBody)).toOption := rfl
    rw [List.forall_mem_cons, hnonce]
    cases hn : getNonce (Γ.yyjsonRead x.txBody) with
    | error e =>
      have herr : ∃ e', raiseErr (.error e : Except Stop Int) = .error e' := by
        cases e with
        | err msg => exact ⟨_, rfl⟩
        | exn x => exact ⟨_, rfl⟩
      obtain ⟨e', he'⟩ := herr
      rw [he']
      constructor
      · rintro ⟨o', ho'⟩
        cases ho'
      · rintro ⟨h, -⟩
        cases h
    | ok n =>
      refine Iff.trans ih ?_
      simp [Except.toOption]

theorem filed_orderTransactions {Γ : Ctx} {zs : List TX} {o o' : StdMap String (StdMap Int (List TX))}
    (h : orderTransactions Γ zs o = .ok o') {z : TX} : Filed o' z ↔ Filed o z ∨ z ∈ zs := by
  induction zs generalizing o with
  | nil =>
    obtain rfl := Except.ok.inj h
    simp
  | cons x zs ih =>
    unfold orderTransactions at h
    cases hn : raiseErr (getNonce (Γ.yyjsonRead x.txBody)) with
    | error e =>
      rw [hn] at h
      cases h
    | ok n =>
      rw [hn] at h
      rw [ih h, filed_insert, List.mem_cons, or_assoc]

/-! ## The pool again -/

/-- Entering transactions of different hashes in a map by the hashes. -/
theorem getElem?_insertAll {key : TX → String} {l : List TX} (hkey : ∀ y ∈ l, ∀ z ∈ l, key y = key z → y = z)
    (p : StdMap String TX) (k : String) (z : TX) :
    (l.foldl (fun p z => p.insert (key z) z) p)[k]? = some z ↔
      (z ∈ l ∧ key z = k) ∨ ((∀ y ∈ l, key y ≠ k) ∧ p[k]? = some z) := by
  induction l generalizing p with
  | nil => simp
  | cons x l ih =>
    have hkey' : ∀ y ∈ l, ∀ z ∈ l, key y = key z → y = z := by
      intro y hy z hz
      exact hkey y (List.mem_cons_of_mem _ hy) z (List.mem_cons_of_mem _ hz)
    rw [List.foldl_cons, ih hkey', StdMap.getElem?_insert, List.forall_mem_cons, List.mem_cons]
    by_cases hx : key x = k
    · subst hx
      rw [if_pos rfl]
      constructor
      · rintro (⟨hz, hk⟩ | ⟨-, hz⟩)
        · exact .inl ⟨.inr hz, hk⟩
        · exact .inl ⟨.inl (Option.some.inj hz).symm, by rw [Option.some.inj hz]⟩
      · rintro (⟨hz, hk⟩ | ⟨⟨hne, -⟩, -⟩)
        · by_cases hl : z ∈ l
          · exact .inl ⟨hl, hk⟩
          · obtain rfl : z = x := by
              rcases hz with hz | hz
              · exact hz
              · exact absurd hz hl
            refine .inr ⟨fun y hy he => hl ?_, rfl⟩
            rwa [← hkey y (List.mem_cons_of_mem _ hy) z List.mem_cons_self he]
        · exact absurd rfl hne
    · rw [if_neg hx]
      constructor
      · rintro (⟨hz, hk⟩ | ⟨hne, hz⟩)
        · exact .inl ⟨.inr hz, hk⟩
        · exact .inr ⟨⟨hx, hne⟩, hz⟩
      · rintro (⟨hz | hz, hk⟩ | ⟨⟨-, hne⟩, hz⟩)
        · exact absurd (hz ▸ hk) hx
        · exact .inl ⟨hz, hk⟩
        · exact .inr ⟨hne, hz⟩

/-- What holds of the transactions of a pool in the order of their hashes. -/
theorem pairwise_pool {pool : StdMap String TX} {R : TX → TX → Prop} :
    (pool.toList.map (·.2)).Pairwise R ↔
      ∀ (j k : String) (y z : TX), pool[j]? = some y → pool[k]? = some z → j < k → R y z := by
  have hkeys : pool.toList.Pairwise fun a b => a.1 < b.1 :=
    pool.ordered_keys_toList.imp fun {a b} hab => compareOfLessAndEq_eq_lt.1 hab
  rw [List.pairwise_map]
  constructor
  · intro h j k y z hy hz hjk
    have hy' : (j, y) ∈ pool.toList := Std.ExtTreeMap.mem_toList_iff_getElem?_eq_some.2 hy
    have hz' : (k, z) ∈ pool.toList := Std.ExtTreeMap.mem_toList_iff_getElem?_eq_some.2 hz
    obtain ⟨i, hi, hyi⟩ := List.getElem_of_mem hy'
    obtain ⟨l, hl, hzl⟩ := List.getElem_of_mem hz'
    rcases lt_trichotomy i l with hlt | rfl | hgt
    · have hr := List.pairwise_iff_getElem.1 h i l hi hl hlt
      rwa [hyi, hzl] at hr
    · obtain ⟨rfl, -⟩ := Prod.mk.inj (hyi.symm.trans hzl)
      exact absurd hjk (lt_irrefl j)
    · have hr := List.pairwise_iff_getElem.1 hkeys l i hl hi hgt
      rw [hyi, hzl] at hr
      exact absurd hjk (lt_asymm hr)
  · intro h
    refine hkeys.imp_of_mem fun {a b} ha hb hab => ?_
    exact h a.1 b.1 a.2 b.2 (Std.ExtTreeMap.mem_toList_iff_getElem?_eq_some.1 ha)
      (Std.ExtTreeMap.mem_toList_iff_getElem?_eq_some.1 hb) hab

theorem mem_pool {pool : StdMap String TX} {z : TX} : z ∈ pool.toList.map (·.2) ↔ ∃ k : String, pool[k]? = some z := by
  constructor
  · intro h
    obtain ⟨e, he, rfl⟩ := List.mem_map.1 h
    exact ⟨e.1, Std.ExtTreeMap.mem_toList_iff_getElem?_eq_some.1 he⟩
  · rintro ⟨k, hk⟩
    exact List.mem_map.2 ⟨(k, z), Std.ExtTreeMap.mem_toList_iff_getElem?_eq_some.2 hk, rfl⟩

section Collect

variable {Γ : NodeCtx} {s : NodeSt}

/-- The ordered transactions, entered again, are the pool. -/
theorem collected_eq (hs : s.Pooled Γ) {o : StdMap String (StdMap Int (List TX))}
    (ho : orderTransactions Γ.ctx (s.transactionPoolOfLeader.toList.map (·.2)) ∅ = .ok o) :
    (o.toList.flatMap fun x => x.2.toList.flatMap (·.2)).foldl (fun p z => p.insert (Γ.thash z.getHash) z) ∅ =
      s.transactionPoolOfLeader := by
  have hmem : ∀ z, z ∈ (o.toList.flatMap fun x => x.2.toList.flatMap (·.2)) ↔ ∃ k : String, s.transactionPoolOfLeader[k]? = some z := by
    intro z
    have hfiled : Filed o z ↔ ∃ k : String, s.transactionPoolOfLeader[k]? = some z := by
      rw [filed_orderTransactions ho, ← mem_pool]
      refine or_iff_right ?_
      rintro ⟨k, m, -, -, hm, -⟩
      cases hm
    rw [← hfiled, List.mem_flatMap]
    constructor
    · rintro ⟨⟨k, m⟩, hm, hz⟩
      obtain ⟨⟨n, l⟩, hl, hz⟩ := List.mem_flatMap.1 hz
      exact ⟨k, m, n, l, Std.ExtTreeMap.mem_toList_iff_getElem?_eq_some.1 hm,
        Std.ExtTreeMap.mem_toList_iff_getElem?_eq_some.1 hl, hz⟩
    · rintro ⟨k, m, n, l, hm, hl, hz⟩
      refine ⟨(k, m), Std.ExtTreeMap.mem_toList_iff_getElem?_eq_some.2 hm, List.mem_flatMap.2 ⟨(n, l), ?_, hz⟩⟩
      exact Std.ExtTreeMap.mem_toList_iff_getElem?_eq_some.2 hl
  apply Std.ExtTreeMap.ext_getElem?
  intro k
  ext z
  rw [getElem?_insertAll]
  · constructor
    · rintro (⟨hz, hk⟩ | ⟨-, hz⟩)
      · obtain ⟨j, hj⟩ := (hmem z).1 hz
        rwa [← hk, hs j z hj]
      · cases hz
    · intro hz
      exact .inl ⟨(hmem z).2 ⟨k, hz⟩, hs k z hz⟩
  · intro y hy z hz he
    obtain ⟨j, hj⟩ := (hmem y).1 hy
    obtain ⟨k, hk⟩ := (hmem z).1 hz
    rw [hs j y hj, hs k z hk] at he
    subst he
    exact Option.some.inj (hj.symm.trans hk)

/-- `collectTransactions` leaves everything as it is, and ends where every nonce can be read. -/
theorem runNode_collectTransactions (hs : s.Pooled Γ) :
    runNode (collectTransactions Γ) s =
      ((orderTransactions Γ.ctx (s.transactionPoolOfLeader.toList.map (·.2)) ∅).map fun _ => (), s) := by
  unfold collectTransactions
  rw [runNode_get_bind, runNode_bind, runNode_ofExcept]
  cases ho : orderTransactions Γ.ctx (s.transactionPoolOfLeader.toList.map (·.2)) ∅ with
  | error e => rfl
  | ok o =>
    dsimp only
    rw [runNode_modify, collected_eq hs ho]
    rfl

/-- From where the leader gets to the transactions on, the block is sent if every nonce can be read, and nothing if not. -/
theorem sent_doStartBlock (hs : s.Pooled Γ) (h : Starts Γ s) :
    ((∀ (k : String) (z : TX), s.transactionPoolOfLeader[k]? = some z → (z.nonce Γ.ctx).isSome) →
      ∃ hb lc, (runNode (doStartBlock Γ) s).2.sent = s.sent ++ [.validateBlockREQ
        { heartBeat := hb, lc := lc, transactionBodies := s.transactionPoolOfLeader.toList.map (·.2) }]) ∧
    (¬ (∀ (k : String) (z : TX), s.transactionPoolOfLeader[k]? = some z → (z.nonce Γ.ctx).isSome) →
      (runNode (doStartBlock Γ) s).2.sent = s.sent) := by
  obtain ⟨hb, mf, lc, u, v, hcert, hmeta, hlc⟩ := h.cert
  obtain ⟨-, mm, rfl, -⟩ := getMetaFull_ok hmeta
  have hv : v = { s with st := v.st, blockMetaFull := mm } := by
    rw [runNode_tree] at hlc
    obtain ⟨-, rfl⟩ := Prod.mk.inj hlc
    rfl
  have hrun : runNode (doStartBlock Γ) s = runNode (collectTransactions Γ >>= fun _ => Node.get >>= fun w =>
      Node.send (.validateBlockREQ
        { heartBeat := hb, lc := lc, transactionBodies := w.transactionPoolOfLeader.toList.map (·.2) })) v := by
    unfold doStartBlock
    rw [runNode_get_bind, if_neg (by simp [h.sync]), if_neg (by simp [h.leader]), hcert]
    dsimp only
    rw [runNode_bind_ok hmeta, runNode_get_bind, runNode_bind_ok hlc]
  have hreadable : (∀ (k : String) (z : TX), s.transactionPoolOfLeader[k]? = some z → (z.nonce Γ.ctx).isSome) ↔
      ∃ o, orderTransactions Γ.ctx (s.transactionPoolOfLeader.toList.map (·.2)) ∅ = .ok o := by
    rw [orderTransactions_ok]
    constructor
    · intro hall z hz
      obtain ⟨k, hk⟩ := mem_pool.1 hz
      exact hall k z hk
    · intro hall k z hk
      exact hall z (mem_pool.2 ⟨k, hk⟩)
  have hpooled : v.Pooled Γ := by
    rw [hv]
    exact hs
  have hpool : v.transactionPoolOfLeader = s.transactionPoolOfLeader := by rw [hv]
  have hsent : v.sent = s.sent := by rw [hv]
  rw [hrun, hreadable, runNode_bind, runNode_collectTransactions hpooled, hpool]
  constructor
  · rintro ⟨o, ho⟩
    refine ⟨hb, lc, ?_⟩
    rw [ho]
    change v.sent ++ [Sent.validateBlockREQ
      { heartBeat := hb, lc := lc, transactionBodies := v.transactionPoolOfLeader.toList.map (·.2) }] = _
    rw [hpool, hsent]
  · intro hno
    cases ho : orderTransactions Γ.ctx (s.transactionPoolOfLeader.toList.map (·.2)) ∅ with
    | ok o => exact absurd ⟨o, ho⟩ hno
    | error e => exact hsent

/-- A pool in the order of its hashes is a well assembled block exactly where the hashes put the nonces in order. -/
theorem assembled_iff (hs : s.Pooled Γ) :
    Assembled Γ.ctx s.transactionPoolOfLeader (s.transactionPoolOfLeader.toList.map (·.2)) ↔
      ∀ (j k : String) (y z : TX), s.transactionPoolOfLeader[j]? = some y → s.transactionPoolOfLeader[k]? = some z →
        Γ.thash y.getHash < Γ.thash z.getHash → InOrder Γ.ctx y z := by
  have hpair : (s.transactionPoolOfLeader.toList.map (·.2)).Pairwise (InOrder Γ.ctx) ↔
      ∀ (j k : String) (y z : TX), s.transactionPoolOfLeader[j]? = some y → s.transactionPoolOfLeader[k]? = some z →
        Γ.thash y.getHash < Γ.thash z.getHash → InOrder Γ.ctx y z := by
    rw [pairwise_pool]
    constructor
    · intro h j k y z hy hz hlt
      rw [hs j y hy, hs k z hz] at hlt
      exact h j k y z hy hz hlt
    · intro h j k y z hy hz hlt
      refine h j k y z hy hz ?_
      rwa [hs j y hy, hs k z hz]
  rw [← hpair]
  constructor
  · intro h
    exact h.ordered
  · intro h
    refine ⟨?_, fun z => mem_pool, h, fun a n k hall => ?_⟩
    · refine List.Nodup.map_on ?_ (MapSum.nodup_toList _)
      intro x hx y hy hxy
      have hx' := hs x.1 x.2 (Std.ExtTreeMap.mem_toList_iff_getElem?_eq_some.1 hx)
      have hy' := hs y.1 y.2 (Std.ExtTreeMap.mem_toList_iff_getElem?_eq_some.1 hy)
      rw [hxy, hy'] at hx'
      exact Prod.ext hx'.symm hxy
    · exact mem_admittedNonces (pairwise_noncesOf h a) (fun m hm => inI64_noncesOf hm) hall

end Collect

/-! ## The block of a leader -/

/-- In every run of a node the block that `do_start_block` sends is well assembled exactly where every pooled nonce can be read
and the hashes of the transactions of a sender have the order of the nonces. -/
theorem doStartBlock_assembles (Γ : NodeCtx) (parse : String → Option Response) (es : List (Clock × NodeEvent)) (s₀ s : NodeSt)
    (hempty : s₀.transactionPoolOfLeader = ∅) (hs : s = nodeRun Γ parse es s₀) (hstart : Starts Γ s) :
    (∃ r, (runNode (doStartBlock Γ) s).2.sent = s.sent ++ [.validateBlockREQ r] ∧
      Assembled Γ.ctx s.transactionPoolOfLeader r.transactionBodies) ↔ Sorts Γ s.transactionPoolOfLeader := by
  have hpooled : s.Pooled Γ := by
    rw [hs]
    refine Pooled.nodeRun (fun k z hz => ?_) parse es
    rw [hempty] at hz
    cases hz
  obtain ⟨hsends, hstops⟩ := sent_doStartBlock hpooled hstart
  constructor
  · rintro ⟨r, hr, hassembled⟩
    have hread : ∀ (k : String) (z : TX), s.transactionPoolOfLeader[k]? = some z → (z.nonce Γ.ctx).isSome := by
      by_contra hno
      rw [hstops hno] at hr
      exact absurd hr (by simp)
    obtain ⟨hb, lc, hsent⟩ := hsends hread
    have heq := List.append_cancel_left (hr.symm.trans hsent)
    obtain rfl := Sent.validateBlockREQ.inj (List.singleton_inj.1 heq)
    exact ⟨hread, (assembled_iff hpooled).1 hassembled⟩
  · intro h
    obtain ⟨hb, lc, hsent⟩ := hsends h.readable
    exact ⟨_, hsent, (assembled_iff hpooled).2 h.hashes⟩

/-! ## Two transactions of a sender -/

/-- The state of a leader whose certificate can be made. -/
theorem Starts.of_isOk {Γ : NodeCtx} {s : NodeSt} (hb : HeartBeatREQ) (hsync : s.st.sync.empty = true)
    (hleader : s.notLeader Γ = false) (hcert : s.bt.leaderCert2 = some hb)
    (h : (runNode (do
      let mf ← getMetaFull Γ hb.blockTimestamp
      let s ← Node.get
      Node.tree Γ.ctx (makeLeaderCert Γ.ctx s.bt hb mf)) s).1.isOk = true) : Starts Γ s := by
  cases hr : (runNode (do
      let mf ← getMetaFull Γ hb.blockTimestamp
      let s ← Node.get
      Node.tree Γ.ctx (makeLeaderCert Γ.ctx s.bt hb mf)) s).1 with
  | error e =>
    rw [hr] at h
    cases h
  | ok lc =>
    obtain ⟨mf, u, hmeta, hlc⟩ := runNode_bind_inv hr
    rw [runNode_get_bind] at hlc
    exact ⟨hsync, hleader, hb, mf, lc, u, _, hcert, hmeta, Prod.ext hlc rfl⟩

namespace Sample

/-- A transaction of a sender, with the text of its nonce. -/
def poolTx (nonce : String) : TX where
  txBody := "\x7b\"sender\":\"61\"" ++ nonce ++ "\x7d"
  pkEdBin := key 'b'
  sigEdBin := ""

/-- Its documents, with the nonces 0, 1, 2 and none. -/
def poolDocs : List (String × Json) :=
  [((poolTx ",\"nonce\":0").txBody, .obj [("sender", .str "61"), ("nonce", .uint 0)]),
    ((poolTx ",\"nonce\":1").txBody, .obj [("sender", .str "61"), ("nonce", .uint 1)]),
    ((poolTx ",\"nonce\":2").txBody, .obj [("sender", .str "61"), ("nonce", .uint 2)]),
    ((poolTx "").txBody, .obj [("sender", .str "61")])]

/-- The digests of the four transactions, in hexadecimal, which is in the order of the bytes. -/
def poolDigests : List (String × String) :=
  [((poolTx ",\"nonce\":0").getHash, "9052f049c152e1c249d1b57aa8aba1e402dab2b04d0efbb3370bdc664e663e52"),
    ((poolTx ",\"nonce\":1").getHash, "6b3feb3787d987d003f4dcca0258d521cd8e930777e95c0666b990aa2808a3fa"),
    ((poolTx ",\"nonce\":2").getHash, "e7bf17a57958957d291ec7d408ba149fcab230b744cc50ff5d6d1bb3f1e878d7"),
    ((poolTx "").getHash, "6a24117090e4559220bfad5f7f927a920b4e0d52373d982f5c83ece592b90748")]

/-- The world of the leader. -/
def poolCtx : NodeCtx :=
  { nodeCtx "o" with
    ctx := { (nodeCtx "o").ctx with yyjsonRead := fun b => (poolDocs.find? fun d => d.1 == b).map (·.2) }
    thash := fun h => ((poolDigests.find? fun d => d.1 == h).map (·.2)).getD h }

/-- The leader of the first window, with the confirmations of all nodes. -/
def leading : NodeSt :=
  { nodeSt with
    stageIsWorking := (clock 5).now
    lBlocks := (∅ : StdMap String BlockLeader).insert ""
      { leaderCert2 := some (heartBeat "o" 5)
        confirmLeaderRSPmCopy := (∅ : StdMap String (StdMap String ConfirmLeaderRSP)).insert (heartBeat "o" 5).getHash
          (["m", "n", "o"].foldl (fun c n => c.insert n (confirmation (nodeCtx n) (heartBeat "o" 5))) ∅) } }

/-- The leader, after two transactions. -/
def pooled (a b : String) : NodeSt :=
  nodeRun poolCtx (fun _ => none) [(clock 5, .putTransactionREQ (poolTx a)), (clock 5, .putTransactionREQ (poolTx b))] leading

/-- The transactions in the blocks of a log. -/
def bodies (l : List Sent) : List (List TX) :=
  l.filterMap fun m =>
    match m with
    | .validateBlockREQ r => some r.transactionBodies
    | _ => none

end Sample

open Sample in
/-- Nonce 1 is listed before nonce 0, and the transaction without a nonce keeps the other one from being sent. -/
theorem doStartBlock_assembles_false :
    (¬ ∃ r, (runNode (doStartBlock poolCtx) (pooled ",\"nonce\":0" ",\"nonce\":1")).2.sent =
        (pooled ",\"nonce\":0" ",\"nonce\":1").sent ++ [.validateBlockREQ r] ∧
        Assembled poolCtx.ctx (pooled ",\"nonce\":0" ",\"nonce\":1").transactionPoolOfLeader r.transactionBodies) ∧
      ¬ ∃ r, (runNode (doStartBlock poolCtx) (pooled ",\"nonce\":0" "")).2.sent =
        (pooled ",\"nonce\":0" "").sent ++ [.validateBlockREQ r] := by
  have hrun : bodies (runNode (doStartBlock poolCtx) (pooled ",\"nonce\":0" ",\"nonce\":1")).2.sent =
        [[poolTx ",\"nonce\":1", poolTx ",\"nonce\":0"]] ∧
      (pooled ",\"nonce\":0" ",\"nonce\":1").sent.length = 0 ∧
      (runNode (doStartBlock poolCtx) (pooled ",\"nonce\":0" "")).2.sent.length = 0 ∧
      (poolTx ",\"nonce\":1").sender poolCtx.ctx = some "a" ∧ (poolTx ",\"nonce\":0").sender poolCtx.ctx = some "a" ∧
      (poolTx ",\"nonce\":1").nonce poolCtx.ctx = some 1 ∧ (poolTx ",\"nonce\":0").nonce poolCtx.ctx = some 0 := by
    decide +kernel
  obtain ⟨hbodies, hnone, hstops, hs1, hs0, hn1, hn0⟩ := hrun
  constructor
  · rintro ⟨r, hr, hassembled⟩
    rw [hr, List.length_eq_zero_iff.1 hnone] at hbodies
    obtain hr' : r.transactionBodies = _ := List.singleton_inj.1 hbodies
    have hordered := hassembled.ordered
    rw [hr', List.pairwise_pair] at hordered
    exact absurd (hordered "a" 1 0 hs1 hs0 hn1 hn0) (by decide)
  · rintro ⟨r, hr⟩
    rw [hr] at hstops
    simp at hstops

open Sample in
theorem doStartBlock_assembles_sample :
    ∃ r, (runNode (doStartBlock poolCtx) (pooled ",\"nonce\":1" ",\"nonce\":2")).2.sent =
      (pooled ",\"nonce\":1" ",\"nonce\":2").sent ++ [.validateBlockREQ r] ∧
        Assembled poolCtx.ctx (pooled ",\"nonce\":1" ",\"nonce\":2").transactionPoolOfLeader r.transactionBodies := by
  have hstart : Starts poolCtx (pooled ",\"nonce\":1" ",\"nonce\":2") := by
    refine .of_isOk (heartBeat "o" 5) ?_ ?_ ?_ ?_ <;> decide +kernel
  have hpool : (pooled ",\"nonce\":1" ",\"nonce\":2").transactionPoolOfLeader.toList =
      [(poolCtx.thash (poolTx ",\"nonce\":1").getHash, poolTx ",\"nonce\":1"),
        (poolCtx.thash (poolTx ",\"nonce\":2").getHash, poolTx ",\"nonce\":2")] := by
    decide +kernel
  have hmem : ∀ (k : String) (z : TX), (pooled ",\"nonce\":1" ",\"nonce\":2").transactionPoolOfLeader[k]? = some z →
      z = poolTx ",\"nonce\":1" ∨ z = poolTx ",\"nonce\":2" := by
    intro k z hz
    have h := Std.ExtTreeMap.mem_toList_iff_getElem?_eq_some.2 hz
    rw [hpool] at h
    rcases List.mem_cons.1 h with h | h
    · exact .inl (Prod.mk.inj h).2
    · exact .inr (Prod.mk.inj (List.mem_singleton.1 h)).2
  have hnonces : (poolTx ",\"nonce\":1").nonce poolCtx.ctx = some 1 ∧ (poolTx ",\"nonce\":2").nonce poolCtx.ctx = some 2 ∧
      poolCtx.thash (poolTx ",\"nonce\":1").getHash < poolCtx.thash (poolTx ",\"nonce\":2").getHash := by
    decide +kernel
  obtain ⟨hn1, hn2, hlt⟩ := hnonces
  have hiff := doStartBlock_assembles poolCtx (fun _ => none)
    [(clock 5, .putTransactionREQ (poolTx ",\"nonce\":1")), (clock 5, .putTransactionREQ (poolTx ",\"nonce\":2"))] leading
    (pooled ",\"nonce\":1" ",\"nonce\":2") rfl rfl hstart
  refine hiff.2 ⟨fun k z hz => ?_, ?_⟩
  · rcases hmem k z hz with rfl | rfl
    · rw [hn1]
      rfl
    · rw [hn2]
      rfl
  · intro j k y z hy hz hhash a m n _ _ hm hn
    rcases hmem j y hy with rfl | rfl <;> rcases hmem k z hz with rfl | rfl
    · exact absurd hhash (lt_irrefl _)
    · rw [hn1] at hm
      rw [hn2] at hn
      cases hm
      cases hn
      decide
    · exact absurd hlt (lt_asymm hhash)
    · exact absurd hhash (lt_irrefl _)

end Grain
