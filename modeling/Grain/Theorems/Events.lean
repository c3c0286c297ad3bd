import Grain.Lemmas.Events
import Grain.Genesis

/-!
# Events and failing transactions

The attachment data of a block should hold the events of the transactions that succeed, all of them and in order, and of one
that fails its error only. Entries are added while a transaction runs, a root command's directly and a contract call's when it
is done, and nothing takes them out when the transaction fails later. So a failing transaction is right exactly if every command
that had been completed was a contract call without events (`attachments_atomic`).
-/

namespace Grain

open Prog Eff

variable (Γ : Ctx) (b : BParams) (newEpoch : Int)

/-- The entry that `execute_block` makes for a transaction that fails. -/
def errorEntry (tx : TX) (msg : String) : Emit :=
  { txId := some tx.getHash, seqId := none, command := "error", body := emitText (errorBody msg) }

/-- The attachment data of a block, executed from `s`: for a transaction that fails it holds the error and no entry of its
commands, and for one that succeeds it holds the events of every command of its list, under the command's index and in order. -/
def EventsAtomic (txs : List TX) (s : St) (emits : List Emit) : Prop :=
  ∀ pre tx post, txs = pre ++ tx :: post →
    (∀ msg, outcome Γ b tx (afterTxs Γ b newEpoch pre s) = .ok (some msg) →
      emits.filter (Emit.ofCommands tx.getHash) = [] ∧ errorEntry tx msg ∈ emits) ∧
    (outcome Γ b tx (afterTxs Γ b newEpoch pre s) = .ok none →
      ∃ t items u, runEff Γ (reachCommands Γ b tx) (afterTxs Γ b newEpoch pre s) = (.ok (t, items), u) ∧
        (completedBy Γ b tx (afterTxs Γ b newEpoch pre s)).map (fun x => (Except.ok x.command, x.index)) =
          items.zipIdx.map (fun z => (parseCommand z.1, z.2)) ∧
        ∀ x ∈ completedBy Γ b tx (afterTxs Γ b newEpoch pre s),
          x.events Γ b <:+: (emits.filter (Emit.ofCommand tx.getHash x.index)).map fun e => (e.command, e.body))

/-- Every command of the transaction that runs to its end calls a contract, whose code emits nothing. -/
def EmitsNothing (tx : TX) (s : St) : Prop :=
  ∀ x ∈ completedBy Γ b tx s, x.command.contract ≠ "root" ∧ contractEvents Γ b x.params x.command x.start = []

/-- Every transaction of the block with the hash of one that fails emits nothing; a failing transaction is one of them. -/
def FailuresSilent (txs : List TX) (s : St) : Prop :=
  ∀ pre tx post, txs = pre ++ tx :: post → (∃ msg, outcome Γ b tx (afterTxs Γ b newEpoch pre s) = .ok (some msg)) →
    ∀ pre' tx' post', txs = pre' ++ tx' :: post' → tx'.getHash = tx.getHash → EmitsNothing Γ b tx' (afterTxs Γ b newEpoch pre' s)

variable {Γ b newEpoch}

/-! ## The entries of a command -/

theorem CommandRun.entries_eq_nil {x : CommandRun}
    (h : ∃ a u, runEff Γ (executeCommand Γ b x.params x.index x.command) x.start = (.ok a, u)) :
    x.entries Γ b = [] ↔ x.command.contract ≠ "root" ∧ contractEvents Γ b x.params x.command x.start = [] := by
  obtain ⟨a, u, hr⟩ := h
  unfold entries events
  rw [List.map_eq_nil_iff]
  split
  · rename_i hc
    refine ⟨fun he => ?_, fun he => absurd hc he.1⟩
    -- a root command that has run to its end has made an entry
    unfold executeCommand at hr
    rw [if_pos hc] at hr
    have hlen := (emits_executeRoot (Γ := Γ) b x.command.method x.command.params).ended x.start a u hr
    rw [List.map_eq_nil_iff.1 he] at hlen
    exact absurd hlen (by decide)
  · rename_i hc
    rw [List.map_eq_nil_iff]
    exact ⟨fun he => ⟨hc, he⟩, fun he => he.2⟩

theorem CommandRun.ofCommand_of_mem {x : CommandRun} {e : Emit} (he : e ∈ x.entries Γ b) :
    e.ofCommand x.params.tx.getHash x.index = true ∧ e.ofCommands x.params.tx.getHash = true := by
  obtain ⟨ev, -, rfl⟩ := List.mem_map.1 he
  simp [entry, Emit.ofCommand, Emit.ofCommands]

theorem CommandRun.map_entries (x : CommandRun) : (x.entries Γ b).map (fun e => (e.command, e.body)) = x.events Γ b := by
  unfold entries
  rw [List.map_map]
  exact List.map_id _

/-! ## A block -/

/-- The run of a list of transactions at one of them. -/
theorem executeTxs_split {pre post : List TX} {tx : TX} {s u : St} {a : Unit}
    (h : runEff Γ (executeTxs Γ b (pre ++ tx :: post)) s = (.ok a, u)) :
    ∃ v w, runEff Γ (executeTxs Γ b pre) s = (.ok (), v) ∧ runEff Γ (executeBlockTx Γ b tx) v = (.ok (), w) ∧
      runEff Γ (executeTxs Γ b post) w = (.ok (), u) ∧
      emitted Γ (executeTxs Γ b (pre ++ tx :: post)) s =
        emitted Γ (executeTxs Γ b pre) s ++ (emitted Γ (executeBlockTx Γ b tx) v ++ emitted Γ (executeTxs Γ b post) w) := by
  induction pre generalizing s with
  | nil =>
    obtain ⟨_, w, h1, h2⟩ := run_bind_eq_ok _ h
    exact ⟨s, w, rfl, h1, h2, notes_bind_ok _ h1⟩
  | cons x pre ih =>
    obtain ⟨_, s1, h1, h2⟩ := run_bind_eq_ok _ h
    obtain ⟨v, w, h3, h4, h5, h6⟩ := ih h2
    refine ⟨v, w, (run_bind_ok _ h1).trans h3, h4, h5, ?_⟩
    have hx : emitted Γ (executeTxs Γ b (x :: pre)) s = emitted Γ (executeBlockTx Γ b x) s ++ emitted Γ (executeTxs Γ b pre) s1 :=
      notes_bind_ok _ h1
    refine (notes_bind_ok _ h1).trans ?_
    rw [hx, List.append_assoc]
    exact congrArg _ h6

/-- Every entry of a list of transactions is one of theirs. -/
theorem mem_emitted_executeTxs {txs : List TX} {s u : St} {a : Unit} (h : runEff Γ (executeTxs Γ b txs) s = (.ok a, u)) {e : Emit}
    (he : e ∈ emitted Γ (executeTxs Γ b txs) s) :
    ∃ pre tx post, txs = pre ++ tx :: post ∧ e ∈ emitted Γ (executeBlockTx Γ b tx) (runEff Γ (executeTxs Γ b pre) s).2 := by
  induction txs generalizing s with
  | nil => exact absurd he List.not_mem_nil
  | cons x txs ih =>
    obtain ⟨_, s1, h1, h2⟩ := run_bind_eq_ok _ h
    rw [show emitted Γ (executeTxs Γ b (x :: txs)) s = _ from notes_bind_ok _ h1] at he
    rcases List.mem_append.1 he with he | he
    · exact ⟨[], x, txs, rfl, he⟩
    · obtain ⟨pre, tx, post, rfl, hmem⟩ := ih h2 he
      refine ⟨x :: pre, tx, post, rfl, ?_⟩
      rw [show runEff Γ (executeTxs Γ b (x :: pre)) s = runEff Γ (executeTxs Γ b pre) s1 from run_bind_ok _ h1]
      exact hmem

/-- A block that has been executed: its transactions ran without an exception, and the command-level entries are theirs. -/
theorem executeBlock_run {txs : List TX} {s u : St} {r : Hash} (h : runEff Γ (executeBlock Γ b newEpoch txs) s = (.ok r, u)) :
    ∃ s1 v, (∀ pre, afterTxs Γ b newEpoch pre s = (runEff Γ (executeTxs Γ b pre) s1).2) ∧
      runEff Γ (executeTxs Γ b txs) s1 = (.ok (), v) ∧
      u.commandLevel = s.commandLevel ++ emitted Γ (executeTxs Γ b txs) s1 ∧ v.emits ⊆ u.emits := by
  obtain ⟨_, s1, h1, h2⟩ := run_bind_eq_ok _ h
  obtain ⟨_, v, h3, h4⟩ := run_bind_eq_ok _ h2
  have hs1 : s1.commandLevel = s.commandLevel := by
    have := commandLevel_run (Γ := Γ) (beginBlock Γ newEpoch) s
    rwa [emitted_of_mute (mute_beginBlock newEpoch), List.append_nil, show runEff Γ (beginBlock Γ newEpoch) s = _ from h1] at this
  have hv : v.commandLevel = s1.commandLevel ++ emitted Γ (executeTxs Γ b txs) s1 := by
    have := commandLevel_run (Γ := Γ) (executeTxs Γ b txs) s1
    rwa [show runEff Γ (executeTxs Γ b txs) s1 = _ from h3] at this
  have hu : u.commandLevel = v.commandLevel := by
    have := commandLevel_run (Γ := Γ) (endBlock Γ b) v
    rwa [emitted_of_mute mute_endBlock, List.append_nil, show runEff Γ (endBlock Γ b) v = _ from h4] at this
  refine ⟨s1, v, fun pre => ?_, h3, by rw [hu, hv, hs1], ?_⟩
  · exact congrArg Prod.snd (run_bind_ok _ h1)
  · have := emits_subset_run (Γ := Γ) (endBlock Γ b) v
    rwa [show runEff Γ (endBlock Γ b) v = _ from h4] at this

theorem filter_ofCommands (s : St) (hash : String) :
    s.emits.filter (Emit.ofCommands hash) = s.commandLevel.filter (Emit.ofCommands hash) := by
  unfold St.commandLevel
  rw [List.filter_filter]
  refine List.filter_congr fun e _ => ?_
  by_cases he : e.seqId.isSome <;> simp [Emit.ofCommands, he]

theorem filter_ofCommand (s : St) (hash : String) (i : Nat) :
    s.emits.filter (Emit.ofCommand hash i) = s.commandLevel.filter (Emit.ofCommand hash i) := by
  unfold St.commandLevel
  rw [List.filter_filter]
  refine List.filter_congr fun e _ => ?_
  by_cases he : e.seqId = some i <;> simp [Emit.ofCommand, he]

/-- A transaction that fails leaves its error in the attachment data. -/
theorem error_mem {tx : TX} {s u : St} {msg : String} (ho : outcome Γ b tx s = .ok (some msg))
    (h : runEff Γ (executeBlockTx Γ b tx) s = (.ok (), u)) : errorEntry tx msg ∈ u.emits := by
  obtain ⟨r, v, h1, h2⟩ := run_bind_eq_ok _ h
  obtain rfl : r = some msg := by
    have : (Except.ok r : Except Stop _) = .ok (some msg) := (congrArg Prod.fst h1).symm.trans ho
    exact Except.ok.inj this
  have hu : u = { v with emits := v.emits ++ [errorEntry tx msg] } := (congrArg Prod.snd h2).symm
  rw [hu]
  exact List.mem_append_right _ List.mem_cons_self

/-- In a block that is executed from new attachment data, these are right for all of its transactions if and only if the
transactions with the hash of a failing one complete no commands but contract calls that emit nothing. -/
theorem attachments_atomic {txs : List TX} {s u : St} {r : Hash} (hs : s.emits = [])
    (h : runEff Γ (executeBlock Γ b newEpoch txs) s = (.ok r, u)) :
    EventsAtomic Γ b newEpoch txs s u.emits ↔ FailuresSilent Γ b newEpoch txs s := by
  obtain ⟨s1, v, hafter, hrun, hlevel, hsub⟩ := executeBlock_run h
  have hnil : s.commandLevel = [] := by
    unfold St.commandLevel
    rw [hs]
    rfl
  rw [hnil, List.nil_append] at hlevel
  -- the entries of one transaction are among those of the block
  have hsplit : ∀ {pre tx post}, txs = pre ++ tx :: post → ∃ w A C, runEff Γ (executeBlockTx Γ b tx)
      (afterTxs Γ b newEpoch pre s) = (.ok (), w) ∧ w.emits ⊆ u.emits ∧
      u.commandLevel = A ++ ((completedBy Γ b tx (afterTxs Γ b newEpoch pre s)).flatMap (CommandRun.entries Γ b) ++ C) := by
    rintro pre tx post rfl
    obtain ⟨v', w, h1, h2, h3, h4⟩ := executeTxs_split hrun
    have hv' : afterTxs Γ b newEpoch pre s = v' := by rw [hafter, h1]
    rw [hv']
    refine ⟨w, _, _, h2, fun e he => ?_, by rw [hlevel, h4, emitted_executeBlockTx]⟩
    have := emits_subset_run (Γ := Γ) (executeTxs Γ b post) w he
    rw [h3] at this
    exact hsub this
  constructor
  · intro hat pre tx post he ⟨msg, hmsg⟩ pre' tx' post' he' hhash x hx
    obtain ⟨htx, hended⟩ := of_mem_completedBy hx
    refine (CommandRun.entries_eq_nil hended).1 (List.eq_nil_iff_forall_not_mem.2 fun e hmem => ?_)
    obtain ⟨w, A, C, -, -, hu⟩ := hsplit he'
    have hin : e ∈ u.commandLevel := by
      rw [hu]
      exact List.mem_append_right _ (List.mem_append_left _ (List.mem_flatMap.2 ⟨x, hx, hmem⟩))
    have hof := (CommandRun.ofCommand_of_mem hmem).2
    rw [htx, hhash] at hof
    have hempty := ((hat pre tx post he).1 msg hmsg).1
    rw [filter_ofCommands] at hempty
    exact List.not_mem_nil (hempty ▸ List.mem_filter.2 ⟨hin, hof⟩)
  · intro hsil pre tx post he
    obtain ⟨w, A, C, hw, hsubset, hu⟩ := hsplit he
    refine ⟨fun msg hmsg => ⟨?_, hsubset (error_mem hmsg hw)⟩, fun hok => ?_⟩
    · rw [filter_ofCommands]
      refine List.filter_eq_nil_iff.2 fun e hin hof => ?_
      rw [hlevel] at hin
      obtain ⟨pre', tx', post', he', hmem⟩ := mem_emitted_executeTxs hrun hin
      rw [← hafter, emitted_executeBlockTx] at hmem
      obtain ⟨x, hx, hmem⟩ := List.mem_flatMap.1 hmem
      obtain ⟨htx, hended⟩ := of_mem_completedBy hx
      have hof' := (CommandRun.ofCommand_of_mem hmem).2
      have hhash : tx'.getHash = tx.getHash := by
        simp only [Emit.ofCommands, Bool.and_eq_true, decide_eq_true_eq] at hof hof'
        rw [← htx]
        exact Option.some.inj (hof'.1.symm.trans hof.1)
      rw [(CommandRun.entries_eq_nil hended).2 (hsil pre tx post he ⟨msg, hmsg⟩ pre' tx' post' he' hhash x hx)] at hmem
      exact List.not_mem_nil hmem
    · have hrun' : runEff Γ (catchErr (checkAndExecute Γ b tx)) (afterTxs Γ b newEpoch pre s) = (.ok none, _) :=
        Prod.ext hok rfl
      obtain ⟨t, items, v', hreach, heq⟩ := all_completed (of_catchErr_none hrun')
      refine ⟨t, items, v', hreach, heq, fun x hx => ?_⟩
      obtain ⟨htx, -⟩ := of_mem_completedBy hx
      rw [filter_ofCommand, ← CommandRun.map_entries]
      have hinfix : x.entries Γ b <:+: u.commandLevel := by
        obtain ⟨l, l', hl⟩ := List.append_of_mem hx
        refine ⟨A ++ l.flatMap (CommandRun.entries Γ b), l'.flatMap (CommandRun.entries Γ b) ++ C, ?_⟩
        rw [hu, hl, List.flatMap_append, List.flatMap_cons]
        simp only [List.append_assoc]
      have hself : (x.entries Γ b).filter (Emit.ofCommand tx.getHash x.index) = x.entries Γ b := by
        refine List.filter_eq_self.2 fun e he => ?_
        rw [← htx]
        exact (CommandRun.ofCommand_of_mem he).1
      have := hinfix.filter (Emit.ofCommand tx.getHash x.index)
      rw [hself] at this
      exact this.map _

/-! ## A payment -/

namespace Sample

/-- The first user pays one token to the second; other commands follow. -/
def payment (rest : List Json) : Ctx :=
  ctx [("pay", body "a" 0 10 10 (command "transfer" [("amount", .uint 1), ("to", .str "62")] :: rest))] fun _ => none

/-- The payment is followed by a command that is not known. -/
def refused : Ctx := payment [command "pay" []]

/-- The transaction, signed by the first user. -/
def paymentTx : TX := { txBody := "pay", pkEdBin := key 'k', sigEdBin := sign 'k' }

end Sample

open Sample

/-- The payment alone: its entries are right, as no transaction fails. -/
theorem attachments_atomic_sample : ∃ r u, runEff (payment []) (executeBlock (payment []) params 1 [paymentTx])
      (genesis (payment []) file) = (.ok r, u) ∧
    (EventsAtomic (payment []) params 1 [paymentTx] (genesis (payment []) file) u.emits ↔
      FailuresSilent (payment []) params 1 [paymentTx] (genesis (payment []) file)) := by
  have hok : (runEff (payment []) (executeBlock (payment []) params 1 [paymentTx]) (genesis (payment []) file)).1.isOk = true := by
    decide +kernel
  rcases h : runEff (payment []) (executeBlock (payment []) params 1 [paymentTx]) (genesis (payment []) file) with ⟨e | r, u⟩
  · rw [h] at hok
    cases hok
  · exact ⟨r, u, rfl, attachments_atomic (by decide +kernel) h⟩

/-- The payment is followed by a command that fails: the transaction is undone, and the entry of the payment stays in the
attachment data. -/
theorem attachments_atomic_false : ¬ ∀ (Γ : Ctx) (b : BParams) (newEpoch : Int) (txs : List TX) (s u : St) (r : Hash), s.emits = [] →
    runEff Γ (executeBlock Γ b newEpoch txs) s = (.ok r, u) → EventsAtomic Γ b newEpoch txs s u.emits := by
  intro h
  have hok : (runEff refused (executeBlock refused params 1 [paymentTx]) (genesis refused file)).1.isOk = true := by
    decide +kernel
  have hentries : ((runEff refused (executeBlock refused params 1 [paymentTx]) (genesis refused file)).2.emits.filter
      (Emit.ofCommands paymentTx.getHash)).length = 1 := by
    decide +kernel
  have hfails : (outcome refused params paymentTx (afterTxs refused params 1 [] (genesis refused file))).toOption.join.isSome =
      true := by
    decide +kernel
  rcases hrun : runEff refused (executeBlock refused params 1 [paymentTx]) (genesis refused file) with ⟨e | r, u⟩ <;>
    rw [hrun] at hok hentries
  · cases hok
  · rcases ho : outcome refused params paymentTx (afterTxs refused params 1 [] (genesis refused file)) with e | (_ | msg) <;>
      rw [ho] at hfails
    · cases hfails
    · cases hfails
    · have hempty := ((h _ _ _ _ _ u r (by decide +kernel) hrun [] paymentTx [] rfl).1 msg ho).1
      dsimp only at hentries
      rw [hempty] at hentries
      cases hentries

end Grain
