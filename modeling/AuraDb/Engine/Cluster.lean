import AuraDb.Engine.Invariant
import AuraDb.Engine.Replicated

/-! An engine in a cluster: a request is committed at the timestamp of the replicated log. Above the watermark
this is the commit of a single node whose watermark stands right below it. -/
namespace AuraDb
open Library Std CollectionIndexes Storage
variable {s : Storage} {ts : Nat} {batch : Batch} {answer : Option (Result Nat)}

namespace Storage

/-- The versions of the batch, as its last write to each key gives them. -/
def Holds (s : Storage) (ts : Nat) (batch : Batch) (c : String) : Prop :=
  ∀ i value, lastWrite batch.ops c i = some value → ⟨ts,value⟩ ∈ s.chainOf c i

theorem applied_grows (ok : s.WellFormed) (newer : s.lastCommitTs < ts) (batch : Batch)
    (c : String) : (∀ i, ∀ v ∈ s.chainOf c i, v ∈ (s.applied ts batch).chainOf c i) ∧
      (s.applied ts batch).Holds ts batch c := by
  refine ⟨?_,?_⟩
  · intro i v inside
    rw [chainOf_applied ok ts batch newer]
    split
    · exact inside
    · exact List.mem_append_left _ inside
  · intro i value last
    rw [chainOf_applied ok ts batch newer,last]
    simp

theorem commitThrough_answered (s : Storage) (ts : Nat) (batch : Batch) :
    (s.commitThrough (some (.ok ts)) (.ok ()) batch).2 = .ok ts := by
  unfold commitThrough
  dsimp only
  split
  · rename_i failed
    unfold applyCommittedBatch at failed
    split at failed
    · cases failed
    · split at failed <;> cases failed
  · rfl

theorem commitThrough_grows {s' : Storage} (ok : s.WellFormed)
    {r : Result Nat} (done : s.commitThrough answer (.ok ()) batch = (s',r)) :
    (∀ c i, ∀ v ∈ s.chainOf c i, v ∈ s'.chainOf c i) ∧ s'.schemas = s.schemas ∧ s.lastCommitTs ≤ s'.lastCommitTs ∧
      ∀ ts, r = .ok ts → ts ≤ s'.lastCommitTs ∧
        ((answer = some (.ok ts) → s.lastCommitTs < ts) → ∀ c, s'.Holds ts batch c) := by
  have empty (none : batch.ops.isEmpty = true) (t : Storage) (ts : Nat) (c : String) : t.Holds ts batch c := by
    intro i value last
    rw [List.isEmpty_iff.mp none] at last
    cases last
  unfold commitThrough at done
  split at done
  · unfold commitBatch at done
    split at done
    · rename_i none
      cases done
      exact ⟨fun _ _ _ inside => inside,rfl,le_rfl,fun ts given => by cases given; exact ⟨le_rfl,fun _ => empty none _ _⟩⟩
    · cases done
      have newer := Nat.lt_succ_self s.lastCommitTs
      refine ⟨fun c => (applied_grows ok newer batch c).1,rfl,Nat.le_succ _,?_⟩
      intro ts given
      cases given
      exact ⟨le_rfl,fun _ c => (applied_grows ok newer batch c).2⟩
  · cases done
    exact ⟨fun _ _ _ inside => inside,rfl,le_rfl,by simp⟩
  · rename_i ts
    rcases Nat.lt_or_ge s.lastCommitTs ts with newer | old
    rotate_left
    · simp only [applyCommittedBatch,if_pos old] at done
      cases done
      refine ⟨fun _ _ _ inside => inside,rfl,le_rfl,?_⟩
      intro ts given
      cases given
      exact ⟨old,fun higher => absurd (higher rfl) (Nat.not_lt.mpr old)⟩
    · simp only [applyCommittedBatch,if_neg (Nat.not_le.mpr newer)] at done
      split at done
      · rename_i failed
        split at failed <;> cases failed
      · rename_i applied
        cases done
        split at applied
        · rename_i none
          cases applied
          exact ⟨fun _ _ _ inside => inside,rfl,newer.le,fun ts given => by
            cases given
            exact ⟨le_rfl,fun _ => empty none _ _⟩⟩
        · cases applied
          refine ⟨fun c => (applied_grows ok newer batch c).1,rfl,newer.le,?_⟩
          intro ts given
          cases given
          exact ⟨le_rfl,fun _ c => (applied_grows ok newer batch c).2⟩

end Storage

namespace Engine
section
variable [Host]

def stamped (t : Nat) (e : Engine) : Engine := { e with storage := { e.storage with lastCommitTs := t } }

-- no check reads the watermark
section
variable (t : Nat) (e : Engine)
include t e

theorem prepareWrites_stamped (schema : CollectionSchema) (c : String) (mode : WriteMode)
    (docs : List Document) (clock : Nat) (pending : List String) :
    (e.stamped t).prepareWrites schema c mode 0 docs clock pending =
      e.prepareWrites schema c mode 0 docs clock pending := by
  have one (fields : Document) (clock : Nat) (pending : List String) :
      (e.stamped t).prepareWrite schema c mode 0 pending fields clock =
        e.prepareWrite schema c mode 0 pending fields clock := rfl
  induction docs generalizing clock pending with
  | nil => rfl
  | cons fields rest ih => simp only [prepareWrites,one,ih]

theorem prepareCommits_stamped (txnId : TxnId) (ops : List (Key × StagedOp)) :
    (e.stamped t).prepareCommits txnId ops = e.prepareCommits txnId ops := by
  have one (key : Key) (op : StagedOp) :
      (e.stamped t).prepareCommit txnId key op = e.prepareCommit txnId key op := rfl
  induction ops with
  | nil => rfl
  | cons first rest ih => simp only [prepareCommits,one,ih]

theorem prepareRecords_stamped (c : String) (docs : List Document) (mode : WriteMode) :
    (e.stamped t).prepareRecords c docs mode =
      ((e.prepareRecords c docs mode).1.stamped t,(e.prepareRecords c docs mode).2) := by
  have known : (e.stamped t).schemaFor c = e.schemaFor c := rfl
  unfold prepareRecords
  rw [known]
  cases e.schemaFor c with
  | error err => rfl
  | ok schema =>
    dsimp only
    rw [prepareWrites_stamped]
    rfl

theorem prepare_stamped (q : Request) : (e.stamped t).prepare q = ((e.prepare q).1.stamped t,(e.prepare q).2) := by
  cases q with
  | mutate m =>
    cases m with
    | insert c fields => exact prepareRecords_stamped t e c [fields] .insert
    | upsert c fields => exact prepareRecords_stamped t e c [fields] .upsert
    | bulkInsert c docs => exact prepareRecords_stamped t e c docs .insert
    | update c filter set | delete c filter => rfl
  | commit txn =>
    have calm : checkAll ((e.stamped t).conflictCheck txn.readTs) (txn.stagedOps.map Prod.fst) =
      checkAll (e.conflictCheck txn.readTs) (txn.stagedOps.map Prod.fst) := rfl
    simp only [prepare,prepareTransaction,calm,prepareCommits_stamped]

end

/-- A request that writes no two records with one unique key and derives no id from two primary keys. -/
def RequestApart (e : Engine) : Request → Prop
  | .mutate (.update c filter set) => AssignsApart e c filter set
  | .mutate (.bulkInsert c docs) => IdsDiffer e c docs
  | .commit txn => PutsApart e txn
  | _ => True

variable {e e' : Engine} {q : Request} {p : Prepared} {txnId : TxnId} {outcome : Outcome Unit}

theorem Effect.sound_apart {changes : List Change} (effect : Effect e e' txnId changes)
    (sound : Sound e) (checked : ∀ ch ∈ changes, Checked e ch) (distinct : (changes.map Change.key).Nodup)
    (apart : Apart e changes) : Sound e' :=
  effect.sound sound checked distinct (effect.covered sound.covered checked apart).uniqueKeys

theorem Effect.sound_quiet (effect : Effect e e' txnId []) (sound : Sound e) : Sound e' :=
  effect.sound_apart sound (by simp) (by simp) (by simp [Apart,Change.writesTo])

theorem sound_serve (sound : Sound e) {io : Result Unit} (apart : e.RequestApart q)
    (done : e.serve io q = (e',outcome)) (calm : ∀ m, outcome ≠ .panic m) : Sound e' := by
  cases q with
  | mutate m =>
    have ends := mutate_ends e sound.storage io m
    simp only [serve] at done
    generalize e.mutate io m = next at ends done
    cases ends with
    | committed e' a changes effect frame made =>
      cases done
      refine effect.sound_apart sound ?_ (made.keys sound.storage ?_) (made.apart sound.covered ?_)
      · obtain ⟨_,_,placed,_⟩ := made
        exact fun ch inside => (placed ch inside).2
      · rintro c docs rfl
        exact apart
      · rintro c filter set rfl
        exact apart
    | refused e' err effect frame =>
      cases done
      exact effect.sound_quiet sound
    | panicked e' m why =>
      cases done
      exact absurd rfl (calm m)
  | commit txn =>
    have ends := commitTransaction_ends sound.storage io txn
    simp only [serve] at done
    rw [done] at ends
    cases ends with
    | committed e' a changes effect frame how =>
      obtain ⟨rfl,admissible,-⟩ := how
      exact effect.sound_apart sound (stagedChanges_checked admissible) (stagedChanges_keys _ _)
        (PutsApart.apart apart)
    | refused e' err effect frame => exact effect.sound_quiet sound
    | panicked e' m why => exact absurd rfl (calm m)

theorem RequestApart.stamped (apart : e.RequestApart q) (t : Nat) : (e.stamped t).RequestApart q := by
  cases q with
  | mutate m => cases m <;> exact apart
  | commit txn => exact apart

theorem Sound.stamped (sound : Sound e) {t : Nat} (later : e.storage.lastCommitTs ≤ t) : Sound (e.stamped t) := by
  refine sound.congr ⟨sound.storage.ascending,?_,sound.storage.keyed⟩ rfl (fun _ => rfl) (fun _ => rfl)
  intro c i v inside
  exact (sound.storage.bounded c i v inside).trans later

theorem storage_commitPrepared (e : Engine) (answer : Option (Result Nat)) (io : Result Unit) (p : Prepared) :
    (e.commitPrepared answer io p).1.storage = (e.storage.commitThrough answer io p.batch).1 := by
  unfold commitPrepared
  split
  · rename_i done
    rw [done]
  · rename_i done
    rw [done]
    cases p with
    | mutation c batch updates =>
      dsimp only
      split <;> rfl
    | transaction batch updates => exact storage_finishCommit ..

theorem storage_serveThrough (found : e.prepare q = (e',.ok (some p))) (answer : Option (Result Nat))
    (io : Result Unit) : (e.serveThrough answer io q).1.storage = (e.storage.commitThrough answer io p.batch).1 := by
  have same := (prepare_frame e q).1
  rw [found] at same
  simp only [serveThrough,found,commitFound,storage_commitPrepared]
  rw [same]

theorem storage_unsubmitted (none : ∀ batch, e.submit q ≠ .ok (some batch)) (answer : Option (Result Nat))
    (io : Result Unit) : (e.serveThrough answer io q).1.storage = e.storage := by
  have same := (prepare_frame e q).1
  rcases found : e.prepare q with ⟨mid,o⟩
  rw [found] at same
  simp only [serveThrough,found]
  cases o with
  | err err | panic m => exact same
  | ok p =>
    cases p with
    | none => exact same
    | some p => exact absurd (by simp [submit,found,Outcome.map]) (none p.batch)

omit [Host] in
theorem commitThrough_above (newer : s.lastCommitTs < ts) (some : batch.ops.isEmpty = false) :
    s.commitThrough (.some (.ok ts)) (.ok ()) batch = (s.applied ts batch,.ok ts) ∧
      ({ s with lastCommitTs := ts - 1 } : Storage).commitThrough none (.ok ()) batch = (s.applied ts batch,.ok ts) := by
  have here : ts - 1 + 1 = ts := by omega
  refine ⟨?_,?_⟩
  · simp [commitThrough,applyCommittedBatch,Nat.not_le.mpr newer,some]
  · simp [commitThrough,commitBatch,some,here,applied]

theorem serveThrough_above (newer : e.storage.lastCommitTs < ts) (found : e.prepare q = (e',.ok (some p)))
    (some : p.batch.ops.isEmpty = false) :
    e.serveThrough (.some (.ok ts)) (.ok ()) q = (e.stamped (ts - 1)).serve (.ok ()) q := by
  have same : e'.storage = e.storage := by
    have frame := (prepare_frame e q).1
    rwa [found] at frame
  obtain ⟨through,alone⟩ := commitThrough_above (same ▸ newer) some
  have alone' : (e'.stamped (ts - 1)).storage.commitThrough none (.ok ()) p.batch = _ := alone
  rw [← serveThrough_none]
  simp only [serveThrough,prepare_stamped,found,commitFound,commitPrepared,through,alone']
  rfl

theorem transaction_some (ok : e.storage.WellFormed) {updates : List Update}
    (found : (e.prepare q).2 = .ok (some (.transaction batch updates))) : batch.ops.isEmpty = false := by
  cases q with
  | mutate m =>
    have prepares := prepare_prepares ok m
    generalize e.prepare (.mutate m) = prepared at prepares found
    cases prepares <;> cases found
  | commit txn =>
    simp only [prepare,prepareTransaction] at found
    split at found
    · cases found
    split at found
    · cases found
    split at found
    · cases found
    · rename_i some
      cases found
      simpa using some

theorem serveThrough_empty (ok : e.storage.WellFormed) (newer : e.storage.lastCommitTs < ts)
    (found : e.prepare q = (e',.ok (some p))) (none : p.batch.ops.isEmpty = true) : e.serveThrough (.some (.ok ts)) (.ok ()) q =
      ((e.serve (.ok ()) q).1.stamped ts,(e.serve (.ok ()) q).2) := by
  have same : e'.storage = e.storage := by
    have frame := (prepare_frame e q).1
    rwa [found] at frame
  have through : e'.storage.commitThrough (.some (.ok ts)) (.ok ()) p.batch =
      ({ e'.storage with lastCommitTs := ts },.ok ts) := by
    simp [commitThrough,applyCommittedBatch,same,Nat.not_le.mpr newer,none]
  have alone : e'.storage.commitThrough .none (.ok ()) p.batch = (e'.storage,.ok e'.storage.lastCommitTs) := by
    simp [commitThrough,commitBatch,none]
  rw [← serveThrough_none]
  simp only [serveThrough,found,commitFound,commitPrepared,through,alone]
  cases p with
  | mutation c batch updates =>
    dsimp only
    cases e'.indexes[c]? with
    | none | some idx => rfl
  | transaction batch updates =>
    have some := transaction_some ok (congrArg Prod.snd found)
    rw [Prepared.batch,some] at none
    cases none

theorem sound_serveThrough (sound : Sound e)
    (apart : e.RequestApart q) (above : ∀ ts, answer = some (.ok ts) → e.storage.lastCommitTs < ts)
    (done : e.serveThrough answer (.ok ()) q = (e',outcome)) (calm : ∀ m, outcome ≠ .panic m) : Sound e' := by
  have quiet (next : Engine) (storage : next.storage = e.storage) (indexes : next.indexes = e.indexes) : Sound next :=
    (Effect.quiet 0 storage indexes).sound_quiet sound
  obtain ⟨storage,indexes⟩ := prepare_frame e q
  cases answer with
  | none =>
    rw [serveThrough_none] at done
    exact sound_serve sound apart done calm
  | some answer =>
    rcases found : e.prepare q with ⟨mid,o⟩
    rw [found] at storage indexes
    cases o with
    | err err =>
      simp only [serveThrough,found,commitFound] at done
      cases done
      exact quiet _ storage indexes
    | panic m =>
      simp only [serveThrough,found,commitFound] at done
      cases done
      exact absurd rfl (calm m)
    | ok p =>
      cases p with
      | none =>
        simp only [serveThrough,found,commitFound] at done
        cases done
        exact quiet _ storage indexes
      | some p =>
        cases answer with
        | error err =>
          simp only [serveThrough,found,commitFound,commitPrepared,commitThrough] at done
          cases done
          exact quiet _ storage indexes
        | ok ts =>
          have newer := above ts rfl
          cases size : p.batch.ops.isEmpty with
          | false =>
            rw [serveThrough_above newer found size] at done
            exact sound_serve (sound.stamped (by omega)) (apart.stamped _) done calm
          | true =>
            rw [serveThrough_empty sound.storage newer found size] at done
            have stored := storage_serveThrough found none (.ok ())
            rw [serveThrough_none] at stored
            have unchanged : (e.serve (.ok ()) q).1.storage = e.storage := by
              simpa [commitThrough,commitBatch,size] using stored
            obtain ⟨same,ended⟩ := Prod.mk.inj done
            have whole : e.serve (.ok ()) q = ((e.serve (.ok ()) q).1,outcome) := Prod.ext rfl ended
            have kept := sound_serve sound apart whole calm
            rw [← same]
            refine kept.stamped ?_
            rw [unchanged]
            exact newer.le

theorem createSchema_sound (sound : Sound e) {schema : CollectionSchema}
    (fits : schema.validateDefinition = .ok () → e.Fits schema) : Sound (e.createSchema (.ok ()) schema).1 := by
  cases valid : schema.validateDefinition with
  | error err =>
    have same : (e.createSchema (.ok ()) schema).1 = e := by simp [createSchema,valid]
    rw [same]
    exact sound
  | ok u =>
    obtain ⟨idx,rebuilt⟩ := sound.storage.rebuild_ok schema.name (fits valid)
    have ok := sound.storage.putSchema (.ok ()) schema
    have storage := storage_createSchema (.ok ()) schema e
    have put : (e.storage.putSchema (.ok ()) schema).2 = .ok () := by simp [putSchema,valid]
    have indexes : (e.createSchema (.ok ()) schema).1.indexes = e.indexes.insert schema.name idx := by
      simp only [createSchema,valid,put,scan_putSchema,rebuilt]
    have live (c : String) : (e.storage.putSchema (.ok ()) schema).1.get c = e.storage.get c := by
      ext1 i
      rw [get_eq,get_eq,chainOf_putSchema]
    refine ⟨by rw [storage]; exact ok,?_⟩
    intro c schema' found
    rw [storage] at found ⊢
    rw [indexes,TreeMap.getElem?_insert_eq,live]
    by_cases same : schema.name = c
    · subst same
      have here : schema' = schema := by
        simp [putSchema,valid] at found
        exact found.symm
      subst here
      obtain ⟨shape,agrees⟩ := sound.storage.rebuild_agrees schema'.name rebuilt
      exact ⟨idx,by simp,shape,agrees⟩
    · rw [putSchema_other (.ok ()) schema _ c same] at found
      rw [if_neg same]
      exact sound.indexed c schema' found

theorem dropSchema_sound (sound : Sound e) (name : String) : Sound (e.dropSchema (.ok ()) (.ok ()) name).1 := by
  unfold dropSchema
  split
  · rename_i storage err refused
    have same : storage = e.storage := by
      have unchanged := dropSchema_refused (congrArg Prod.snd refused)
      rwa [refused] at unchanged
    subst same
    exact sound
  · rename_i storage dropped
    obtain ⟨mid,written,forgot⟩ := dropSchema_done (congrArg Prod.snd dropped)
    rw [dropped] at forgot
    have kept : mid.WellFormed ∧ mid.schemas = e.storage.schemas := by
      rcases written with rfl | rfl
      · exact ⟨sound.storage,rfl⟩
      · exact ⟨sound.storage.applied _ _ (Nat.lt_succ_self _),rfl⟩
    subst forgot
    refine ⟨kept.1.forgotten name,?_⟩
    intro c schema found
    simp only [forgotten,kept.2] at found
    obtain ⟨different,before⟩ := TreeMap.of_getElem?_erase found
    have other : name ≠ c := Ne.symm different
    have live : (mid.forgotten name).get c = e.storage.get c := by
      ext1 i
      rw [get_eq,get_eq,chainOf_dropped sound.storage written c i other]
    simp only [TreeMap.getElem?_erase_eq,if_neg other]
    rw [live]
    exact sound.indexed c schema before

end

end Engine

end AuraDb
