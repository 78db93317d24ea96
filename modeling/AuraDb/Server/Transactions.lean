import AuraDb.Server.Dispatch

/-! What a request does about transactions: to the registry of the engine, and to what its
session has of them. -/
namespace AuraDb
open Library Library.TreeMap Std
namespace Engine

/-- Every transaction of the registry was there before, of the same connection. -/
def Keeps (e e' : Engine) : Prop :=
  ∀ (t : TxnId) entry, e'.txns[t]? = some entry → ∃ old, e.txns[t]? = some old ∧ old.connectionId = entry.connectionId

variable {e e' : Engine}

theorem Keeps.of_eq (same : e'.txns = e.txns) : e.Keeps e' := fun _ entry found => ⟨entry,same ▸ found,rfl⟩

theorem Keeps.trans {e'' : Engine} (first : e.Keeps e') (second : e'.Keeps e'') : e.Keeps e'' := by
  intro t entry found
  obtain ⟨between,held,same⟩ := second t entry found
  obtain ⟨old,before,own⟩ := first t between held
  exact ⟨old,before,own.trans same⟩

theorem touchTxn_keeps (e : Engine) (id : TxnId) (now : Nat) : e.Keeps (e.touchTxn id now).1 := by
  unfold touchTxn
  split
  · exact .of_eq rfl
  · rename_i entry known
    split
    · exact forall_insert ⟨entry,known,rfl⟩ fun _ entry' _ found => ⟨entry',found,rfl⟩
    · exact .of_eq rfl

theorem reapTransactions_keeps (e : Engine) (now : Nat) : e.Keeps (e.reapTransactions now).1 := by
  unfold reapTransactions
  split
  · exact .of_eq rfl
  · intro t entry found
    obtain ⟨old,held,rfl⟩ := Option.map_eq_some_iff.mp (ExtTreeMap.getElem?_map.symm.trans found)
    exact ⟨old,held,by split <;> rfl⟩

theorem rollback_keeps (e : Engine) (id : TxnId) : e.Keeps (e.rollback id) :=
  fun _ entry found => ⟨entry,(of_getElem?_erase found).2,rfl⟩

theorem commitTo_txns (e : Engine) (io : Result Unit) (c : String) (batch : Batch) (updates : List Update) [Host] :
    (e.commitTo io c batch updates).1.txns = e.txns := by
  unfold commitTo
  split
  · rfl
  · split <;> rfl

variable [Host]

theorem readView_keeps (e : Engine) (txn : Option Transaction) (now : Nat) (collection : String) :
    e.Keeps (e.readView txn now collection).1 := by
  rw [readView_engine]
  cases txn with
  | none => exact .of_eq rfl
  | some txn => exact touchTxn_keeps e txn.id now

theorem stage_keeps (e : Engine) (txn : Transaction) (m : Mutation) (now : Nat) : e.Keeps (e.stage txn m now).1 := by
  have touched := e.touchTxn_keeps txn.id now
  unfold stage
  split
  all_goals
    rename_i used
    rw [used] at touched
    exact touched

theorem applyMutation_txns (e : Engine) (io : Result Unit) (m : Mutation) :
    (e.applyMutation io m).1.txns = e.txns := by
  have written (c : String) (docs : List Document) (mode : WriteMode) :
      (e.writeRecords io c docs mode 0).1.txns = e.txns := by
    unfold writeRecords
    split
    · rfl
    dsimp only
    split
    · rfl
    · rfl
    · exact commitTo_txns ..
  have mutated : (e.mutate io m).1.txns = e.txns := by
    cases m with
    | insert | upsert | bulkInsert => exact written ..
    | update =>
      rw [mutate,updateRecords]
      split
      · rfl
      split
      · rfl
      split
      · rfl
      · rfl
      · split
        · rfl
        · exact commitTo_txns ..
    | delete =>
      rw [mutate,deleteRecords]
      split
      · rfl
      dsimp only
      split
      · rfl
      · split
        · rfl
        · exact commitTo_txns ..
  unfold applyMutation
  split
  · rename_i ran
    rw [ran] at mutated
    exact mutated
  · rename_i ran
    rw [ran] at mutated
    exact mutated

theorem commitTransaction_txns (e : Engine) (io : Result Unit) (txn : Transaction) :
    (e.commitTransaction io txn).1.txns = e.txns := by
  have refreshed (affected : List String) (e : Engine) : (affected.foldl refreshStatsRowCount e).txns = e.txns := by
    induction affected generalizing e with
    | nil => rfl
    | cons c rest ih => exact ih _
  unfold commitTransaction
  split
  · rfl
  split
  · rfl
  split
  · rfl
  split
  · rfl
  unfold finishCommit
  dsimp only
  split
  · rfl
  · exact refreshed _ _

theorem commit_txns {io : Result Unit} {txn : Transaction} (calm : ¬(e.commit io txn).2.Panics) :
    (e.commit io txn).1.txns = e.txns.erase txn.id := by
  have same := commitTransaction_txns e io txn
  unfold commit at calm ⊢
  split
  · rfl
  rename_i inTime
  rw [if_neg inTime] at calm
  split
  · rename_i panicked
    rw [panicked] at calm
    exact absurd trivial calm
  · rename_i committed
    rw [committed] at same
    exact congrArg (·.erase txn.id) same

end Engine

namespace Server
open Library.Framing Protocol
variable {frame : Frame} {m : Moment} {config : ServerConfig} {e : Engine} {client : Client}

def Client.Keyed (client : Client) : Prop :=
  ∀ (id : TxnId) txn, client.transactions[id]? = some txn → txn.id = id

def Client.staged (client : Client) (t : TxnId) : Nat := client.stagedWrites[t]?.getD 0

structure Client.SameTxns (client client' : Client) : Prop where
  connectionId : client'.connectionId = client.connectionId
  transactions : client'.transactions = client.transactions
  staged : ∀ t, client'.staged t = client.staged t

theorem Client.SameTxns.refl (client : Client) : client.SameTxns client := ⟨rfl,rfl,fun _ => rfl⟩

section
variable [Host]

theorem stage_id (e : Engine) (txn : Transaction) (mutation : Mutation) (now : Nat) :
    (e.stage txn mutation now).2.1.id = txn.id := by
  unfold Engine.stage
  split
  · rfl
  · exact (Engine.stageMutation_same _ txn mutation).1

/-- A mutation was staged in the transaction of the frame. It counts where it did not fail. -/
structure Client.Stages (client : Client) (config : ServerConfig) (t : TxnId)
    (done : Engine × Transaction × Result MutationResult) (mutation : Mutation) (client' : Client) : Prop where
  connectionId : client'.connectionId = client.connectionId
  transactions : client'.transactions = client.transactions.insert t done.2.1
  others : ∀ t', t' ≠ t → client'.staged t' = client.staged t'
  counted : (∃ err, done.2.2 = .error err) ∧ client'.staged t = client.staged t ∨
    client'.staged t = client.staged t + mutationWriteCount mutation ∧
      client'.staged t ≤ config.limits.maxTransactionWriteSet

/-- What a request can do about transactions: stage a write in one, begin or end one, or use one. -/
structure Covers (config : ServerConfig) [Gateway] (m : Moment) (e : Engine) (client : Client) (frame : Frame)
    (P : Engine → Client → Outcome Reply → Prop) : Prop where
  quiet : ∀ e' client' reply, e.Keeps e' → client.SameTxns client' → P e' client' reply
  staged : ∀ mutation txn client' reply, frame.opcode = .mutate → Gateway.decodeMutation frame.payload = .ok mutation →
    frame.txnId ≠ 0 → client.transactions[frame.txnId.toNat]? = some txn →
    client.Stages config frame.txnId.toNat (e.stage txn mutation m.now) mutation client' →
    P (e.stage txn mutation m.now).1 client' reply
  began : P (handleBegin m e client).engine (handleBegin m e client).client (handleBegin m e client).reply
  ended : ∀ txn e' reply, client.transactions[frame.txnId.toNat]? = some txn →
    (¬reply.Panics → e'.txns = e.txns.erase txn.id) → P e' { client with
      transactions := client.transactions.erase frame.txnId.toNat
      stagedWrites := client.stagedWrites.erase frame.txnId.toNat } reply

theorem planFirst_keeps [Ranked] (txn : Option Transaction) (q : FindQuery) :
    e.Keeps (planFirst config m e txn q).engine := by
  have first := e.readView_keeps txn m.now q.collection
  unfold planFirst
  split
  · rename_i viewed
    rw [viewed] at first
    exact first
  · rename_i e' _ viewed
    rw [viewed] at first
    split
    · exact first
    have second := e'.readView_keeps txn m.now q.collection
    split
    all_goals
      rename_i again
      rw [again] at second
      exact first.trans second

variable [Gateway] {P : Engine → Client → Outcome Reply → Prop}
section
variable (covers : Covers config m e client frame P)
include covers

theorem Covers.same {reply : Outcome Reply} : P e client reply := covers.quiet _ _ _ (.of_eq rfl) (.refl client)

theorem Covers.given {α : Type} {read : Result α} {next : α → Served}
    (passed : ∀ a, read = .ok a → P (next a).engine (next a).client (next a).reply) :
    P (Served.given e client read next).engine (Served.given e client read next).client
      (Served.given e client read next).reply :=
  Served.given_elim (P := fun x => P x.engine x.client x.reply) (fun _ => covers.same) passed

theorem evaluate_covers {query : Evaluation} {run : Source → Result Reply} :
    P (evaluate m e client frame query run).engine (evaluate m e client frame query run).client
      (evaluate m e client frame query run).reply := by
  refine covers.given fun txn _ => ?_
  have keeps := e.readView_keeps txn m.now query.request.collection
  split
  all_goals
    rename_i viewed
    rw [viewed] at keeps
    exact covers.quiet _ _ _ keeps (.refl client)

theorem handleMutation_covers (mutation : Mutation) (isMutate : frame.opcode = .mutate)
    (read : Gateway.decodeMutation frame.payload = .ok mutation) :
    P (handleMutation config m e client frame mutation).engine (handleMutation config m e client frame mutation).client
      (handleMutation config m e client frame mutation).reply := by
  refine covers.given fun _ _ => ?_
  have noted (t : TxnId) : (client.stagedWrites.insert frame.txnId.toNat
      (client.stagedWrites[frame.txnId.toNat]?.getD 0))[t]?.getD 0 = client.staged t := by
    rw [getElem?_insert_eq,Client.staged]
    split
    · rename_i own
      rw [own]
      rfl
    · rfl
  dsimp only
  split
  · exact covers.quiet _ _ _ (.of_eq (Engine.applyMutation_txns ..)) (.refl client)
  · rename_i inside
    split
    · exact covers.quiet _ _ _ (.of_eq rfl) ⟨rfl,rfl,noted⟩
    · rename_i fits
      split
      · exact covers.quiet _ _ _ (.of_eq rfl) ⟨rfl,rfl,noted⟩
      · rename_i txn held
        split
        · rename_i err failed
          exact covers.staged mutation txn _ _ isMutate read inside held
            ⟨rfl,rfl,fun t _ => noted t,.inl ⟨⟨err,failed⟩,noted _⟩⟩
        · refine covers.staged mutation txn _ _ isMutate read inside held ⟨rfl,rfl,fun t other => ?_,.inr ?_⟩
          · rw [Client.staged,getElem?_insert_eq,if_neg (Ne.symm other)]
            exact noted t
          · rw [Client.staged,getElem?_insert_eq,if_pos rfl]
            exact ⟨rfl,Nat.le_of_not_lt fits⟩

theorem handleEnd_covers {finish : Transaction → Engine × Outcome Unit}
    (ends : ∀ txn, ¬(finish txn).2.Panics → (finish txn).1.txns = e.txns.erase txn.id) :
    P (handleEnd e client frame finish).engine (handleEnd e client frame finish).client
      (handleEnd e client frame finish).reply := by
  unfold handleEnd
  split
  · exact covers.same
  · rename_i txn held
    refine covers.ended txn _ _ held fun calm => ends txn fun panics => calm ?_
    cases ran : (finish txn).2 with
    | panic => trivial
    | _ => rwa [ran] at panics

theorem handleEngine_covers [Ranked] :
    P (handleEngine config m e client frame).engine (handleEngine config m e client frame).client
      (handleEngine config m e client frame).reply := by
  unfold handleEngine
  split
  · exact covers.given fun _ _ => covers.quiet _ _ _ (.of_eq rfl) ⟨rfl,rfl,fun _ => rfl⟩
  · refine covers.given fun _ _ => ?_
    split
    · exact covers.quiet _ _ _ (.of_eq rfl) ⟨rfl,rfl,fun _ => rfl⟩
    · exact covers.same
  · exact covers.same
  · exact covers.same
  · exact covers.given fun _ _ => covers.given fun _ _ =>
      covers.quiet _ _ _ (.of_eq (Engine.createSchema_frame ..).txns) (.refl client)
  · exact covers.given fun _ _ => covers.quiet _ _ _ (.of_eq (Engine.dropSchema_frame ..).1.txns) (.refl client)
  · exact covers.given fun _ _ => covers.same
  · exact covers.same
  · rename_i isMutate
    exact covers.given fun mutation read => handleMutation_covers covers mutation isMutate read
  · exact covers.given fun _ _ => evaluate_covers covers
  · exact covers.given fun _ _ => covers.same
  · exact covers.began
  · exact handleEnd_covers covers fun _ calm => Engine.commit_txns calm
  · exact handleEnd_covers covers fun _ _ => rfl
  · exact covers.same

end

theorem handle_covers [Ranked] [KeyText] {state : ServerState} {session : Session}
    (covers : Covers config m state.engine session.toClient frame P) :
    P (handle config m state session frame).state.engine (handle config m state session frame).session.toClient
      (handle config m state session frame).reply := by
  refine handle_elim (P := fun x => P x.state.engine x.session.toClient x.reply) config m (fun _ => covers.same) ?_ ?_
    (fun _ _ _ => covers.same) fun _ _ => handleEngine_covers covers
  · intro req _ _
    cases req.withDeadline config.limits.maxQueryTimeMs with
    | find q =>
      simp only [handleQuery,handleFind]
      split
      · exact covers.same
      · rename_i txn _
        have keeps : state.engine.Keeps (planFirst config m state.engine txn q).engine := planFirst_keeps txn q
        split
        · exact covers.quiet _ _ _ keeps (.refl _)
        · split <;> exact covers.quiet _ _ _ keeps (.refl _)
    | _ => exact evaluate_covers covers
  · intro req _ _
    unfold handleCursorFetch
    split
    · exact covers.same
    · rename_i txn _
      have turned : state.engine.Keeps (fetchHeld state.cursors.cursors[req.cursorId]? state.engine txn req.cursorId
          req.limit m.now).engine := by
        cases held : state.cursors.cursors[req.cursorId]? with
        | none => exact .of_eq rfl
        | some entry =>
          rw [fetchHeld_engine]
          exact state.engine.readView_keeps txn m.now entry.query.collection
      dsimp only [CursorRegistry.fetchWith]
      split
      · exact covers.quiet _ _ _ turned (.refl _)
      · refine covers.quiet _ _ _ turned ?_
        split <;> exact (.refl _)

theorem Client.Keyed.covers (keyed : client.Keyed) : Covers config m e client frame fun _ client' _ => client'.Keyed := by
  refine ⟨?_,?_,?_,?_⟩
  · intro _ client' _ _ same id txn found
    exact keyed id txn (same.transactions ▸ found)
  · intro mutation txn client' _ _ _ _ held stages id txn' found
    rw [stages.transactions] at found
    rcases of_getElem?_insert found with ⟨rfl,rfl⟩ | ⟨_,before⟩
    · exact (stage_id ..).trans (keyed _ _ held)
    · exact keyed id txn' before
  · exact forall_insert rfl fun id txn _ found => keyed id txn found
  · exact fun _ _ _ _ _ id txn found => keyed id txn (of_getElem?_erase found).2

end

end Server

end AuraDb
