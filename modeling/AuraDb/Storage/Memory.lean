import AuraDb.Core.Schema
import AuraDb.Library.TreeMap
import AuraDb.Library.VersionChain
import Mathlib.Data.List.Induction

/-! The in-memory half of `auradb-storage`: version chains by collection and record id, and the commit
watermark. The file step of an operation is passed in as its outcome. -/
namespace AuraDb
open Library Library.VersionChain Std
variable (ops : List LogOp)

inductive LogOp where
  | put (commitTs : Nat) (record : Record)
  | delete (commitTs : Nat) (collection : String) (id : RecordId)
  deriving DecidableEq, Repr

namespace LogOp

def commitTs : LogOp → Nat
  | .put ts _ => ts
  | .delete ts _ _ => ts

def setCommitTs (ts : Nat) : LogOp → LogOp
  | .put _ record => .put ts record
  | .delete _ collection id => .delete ts collection id

def collection : LogOp → String
  | .put _ record => record.collection
  | .delete _ collection _ => collection

def id : LogOp → RecordId
  | .put _ record => record.id
  | .delete _ _ id => id

def value : LogOp → Option Record
  | .put _ record => some record
  | .delete _ _ _ => none

def version (op : LogOp) : Version Record := ⟨op.commitTs,op.value⟩

def targets (op : LogOp) (c : String) (i : RecordId) : Bool := op.collection == c && op.id == i

@[simp] theorem commitTs_setCommitTs (ts : Nat) (op : LogOp) : (op.setCommitTs ts).commitTs = ts := by
  cases op <;> rfl

@[simp] theorem value_setCommitTs (ts : Nat) (op : LogOp) : (op.setCommitTs ts).value = op.value := by
  cases op <;> rfl

@[simp] theorem targets_setCommitTs (ts : Nat) (op : LogOp) (c : String) (i : RecordId) :
    (op.setCommitTs ts).targets c i = op.targets c i := by
  cases op <;> rfl

theorem value_keyed (op : LogOp) (c : String) (i : RecordId) (r : Record) (inside : op.targets c i = true)
    (holds : op.value = some r) : r.collection = c ∧ r.id = i := by
  cases op with
  | put ts record =>
    simp only [value,Option.some.injEq] at holds
    subst r
    simpa [targets,collection,id] using inside
  | delete ts collection id => simp [value] at holds

end LogOp

structure Batch where
  txnId : TxnId
  ops : List LogOp
  deriving DecidableEq, Repr

/-- A mutation that the replicated log orders, with the schema commands that it may hold. -/
inductive ReplicatedCommand (SchemaCommand : Type) where
  | noop
  | write (batch : Batch)
  | schema (command : SchemaCommand)
  deriving DecidableEq, Repr

abbrev Chains := ExtTreeMap RecordId (Chain Record) compare

abbrev RecordMap := ExtTreeMap String Chains compare

namespace RecordMap

def chainOf (records : RecordMap) (c : String) (i : RecordId) : Chain Record :=
  (records[c]?.bind (fun chains => chains[i]?)).getD []

def applyOp (records : RecordMap) (op : LogOp) : RecordMap :=
  records.alter op.collection (fun chains => some ((chains.getD ∅).alter op.id
    (fun chain => some (insertVersion (chain.getD []) op.version))))

def applyBatch (records : RecordMap) (batch : Batch) : RecordMap := batch.ops.foldl applyOp records

def gcChains (cutoff keep : Nat) (records : RecordMap) : RecordMap :=
  records.map (fun _ chains => chains.filterMap (fun _ chain => prune cutoff keep chain))

theorem chainOf_applyOp (records : RecordMap) (op : LogOp) (c : String) (i : RecordId) :
    (applyOp records op).chainOf c i =
      if op.targets c i then insertVersion (records.chainOf c i) op.version else records.chainOf c i := by
  simp only [chainOf,applyOp,TreeMap.getElem?_alter_eq,LogOp.targets,Bool.and_eq_true,beq_iff_eq]
  by_cases sameCollection : op.collection = c
  · simp only [sameCollection,if_true,Option.bind_some,TreeMap.getElem?_alter_eq,true_and]
    by_cases sameId : op.id = i
    · cases records[c]? <;> simp [sameId]
    · cases records[c]? <;> simp [sameId]
  · simp [sameCollection]

theorem chainOf_foldl_applyOp (records : RecordMap) (c : String) (i : RecordId) :
    (ops.foldl applyOp records).chainOf c i =
      ((ops.filter (·.targets c i)).map LogOp.version).foldl insertVersion (records.chainOf c i) := by
  induction ops generalizing records with
  | nil => rfl
  | cons op rest ih =>
    rw [List.foldl_cons,ih,chainOf_applyOp]
    cases hit : op.targets c i <;> simp [hit]

theorem chainOf_gcChains (cutoff keep : Nat) (records : RecordMap) (c : String) (i : RecordId) :
    (gcChains cutoff keep records).chainOf c i = (prune cutoff keep (records.chainOf c i)).getD [] := by
  have empty : (prune cutoff keep ([] : Chain Record)).getD [] = [] := by simp [prune,isDead]
  simp only [chainOf,gcChains,ExtTreeMap.getElem?_map]
  cases records[c]? with
  | none => simp [empty]
  | some chains =>
    simp only [Option.map_some,Option.bind_some,ExtTreeMap.getElem?_filterMap']
    cases chains[i]? <;> simp [empty]

end RecordMap

def lastWrite (ops : List LogOp) (c : String) (i : RecordId) : Option (Option Record) :=
  (ops.reverse.find? (·.targets c i)).map LogOp.value

theorem lastWrite_append_single (op : LogOp) (c : String) (i : RecordId) :
    lastWrite (ops ++ [op]) c i = if op.targets c i then some op.value else lastWrite ops c i := by
  simp only [lastWrite,List.reverse_append,List.reverse_cons,List.reverse_nil,List.nil_append,
    List.cons_append,List.find?_cons]
  cases op.targets c i <;> rfl

theorem foldl_stamped (ts : Nat) (chain : Chain Record) (c : String) (i : RecordId)
    (newer : ∀ v ∈ chain, v.commitTs < ts) :
    (((ops.map (LogOp.setCommitTs ts)).filter (·.targets c i)).map LogOp.version).foldl
        insertVersion chain =
      match lastWrite ops c i with
      | none => chain
      | some value => chain ++ [⟨ts,value⟩] := by
  induction ops using List.reverseRecOn with
  | nil => rfl
  | append_singleton ops op ih =>
    rw [lastWrite_append_single]
    simp only [List.map_append,List.filter_append,List.foldl_append,List.map_cons,List.map_nil]
    rw [ih]
    cases hit : op.targets c i with
    | false => simp [hit]
    | true =>
      simp only [List.filter_cons,LogOp.targets_setCommitTs,hit,if_true,List.filter_nil,List.map_cons,
        List.map_nil,List.foldl_cons,List.foldl_nil,LogOp.version,LogOp.commitTs_setCommitTs,
        LogOp.value_setCommitTs]
      cases lastWrite ops c i with
      | none => exact insertVersion_newer chain _ newer
      | some value => exact insertVersion_same_last chain _ _ newer rfl

structure GcReport where
  versionsReclaimed : Nat
  recordsRemoved : Nat
  versionsAfter : Nat
  bytesReclaimed : Nat
  deriving DecidableEq, Repr

theorem find_id_of_mem (records : List Record) (distinct : (records.map (·.id)).Nodup) (r : Record)
    (inside : r ∈ records) : records.find? (fun r' => r'.id == r.id) = some r := by
  induction records with
  | nil => simp at inside
  | cons first rest ih =>
    obtain ⟨apart,distinct⟩ := List.nodup_cons.mp distinct
    rcases List.mem_cons.mp inside with rfl | later
    · simp
    · have other : first.id ≠ r.id := fun same => apart (List.mem_map.mpr ⟨r,later,same.symm⟩)
      rw [List.find?_cons,beq_eq_false_iff_ne.mpr other]
      exact ih distinct later

theorem find_id_eq (records : List Record) (get : RecordId → Option Record) (distinct : (records.map (·.id)).Nodup)
    (listed : ∀ r, r ∈ records ↔ get r.id = some r) (keyed : ∀ i r, get i = some r → r.id = i) (i : RecordId) :
    records.find? (fun r => r.id == i) = get i := by
  cases found : get i with
  | some r =>
    obtain rfl := keyed i r found
    exact find_id_of_mem _ distinct r ((listed r).mpr found)
  | none =>
    rw [List.find?_eq_none]
    intro r inside same
    have held := (listed r).mp inside
    rw [beq_iff_eq.mp same,found] at held
    cases held

structure Storage where
  schemas : ExtTreeMap String CollectionSchema compare
  records : RecordMap
  maxTxnId : Nat
  lastCommitTs : Nat
  deriving DecidableEq

namespace Storage

def chainOf (s : Storage) (c : String) (i : RecordId) : Chain Record := s.records.chainOf c i

def getSchema (s : Storage) (name : String) : Option CollectionSchema := s.schemas[name]?

def commitWatermark (s : Storage) : Nat := s.lastCommitTs

def values (s : Storage) (c : String) : List (Chain Record) :=
  match s.records[c]? with
  | none => []
  | some chains => chains.toList.map Prod.snd

def get (s : Storage) (c : String) (i : RecordId) : Option Record :=
  s.records[c]?.bind (fun chains => chains[i]?.bind (fun chain => (latest chain).bind (·.value)))

def scan (s : Storage) (c : String) : List Record :=
  (s.values c).filterMap (fun chain => (latest chain).bind (·.value))

def getAsOf (s : Storage) (c : String) (i : RecordId) (readTs : Nat) : Option Record :=
  s.records[c]?.bind (fun chains => chains[i]?.bind (fun chain => (visibleAt chain readTs).bind (·.value)))

def scanAsOf (s : Storage) (c : String) (readTs : Nat) : List Record :=
  (s.values c).filterMap (fun chain => (visibleAt chain readTs).bind (·.value))

def latestCommitTs (s : Storage) (c : String) (i : RecordId) : Option Nat :=
  s.records[c]?.bind (fun chains => chains[i]?.bind (fun chain => (latest chain).map (·.commitTs)))

def count (s : Storage) (c : String) : Nat :=
  ((s.values c).filter (fun chain => ((latest chain).bind (·.value)).isSome)).length

def totalVersions (s : Storage) : Nat :=
  ((s.records.toList.flatMap (fun p => p.2.toList)).map (fun p => p.2.length)).sum

def applied (ts : Nat) (batch : Batch) (s : Storage) : Storage :=
  { s with maxTxnId := max s.maxTxnId batch.txnId, lastCommitTs := ts,
           records := s.records.applyBatch ⟨batch.txnId,batch.ops.map (LogOp.setCommitTs ts)⟩ }

/-- Allocate the next timestamp, append the batch and, once that has succeeded, apply it. Timestamps have no bound
here; those of the source have 64 bits and wrap. -/
def commitBatch (appended : Result Unit) (batch : Batch) (s : Storage) : Storage × Result Nat :=
  if batch.ops.isEmpty then (s,.ok s.lastCommitTs) else
  let ts := s.lastCommitTs + 1
  match appended with
  | .error e => (s,.error e)
  | .ok () => (s.applied ts batch,.ok ts)

/-- Apply a batch at a timestamp from outside; at or below the watermark it is ignored. -/
def applyCommittedBatch (appended : Result Unit) (batch : Batch) (ts : Nat) (s : Storage) : Storage × Result Unit :=
  if ts ≤ s.lastCommitTs then (s,.ok ()) else
  if batch.ops.isEmpty then ({ s with lastCommitTs := ts },.ok ()) else
  match appended with
  | .error e => (s,.error e)
  | .ok () => (s.applied ts batch,.ok ())

def gcCounts (cutoff keep : Nat) (s : Storage) : Nat × Nat :=
  (s.records.toList.flatMap (fun p => p.2.toList)).foldl (fun counts p =>
    if isDead cutoff p.2 then (counts.1 + p.2.length,counts.2 + 1)
    else (counts.1 + removable cutoff keep p.2,counts.2)) (0,0)

def pruned (cutoff keep : Nat) (s : Storage) : Storage :=
  { s with records := s.records.gcChains cutoff keep }

/-- Prune every chain, then rewrite the log; the chains are pruned even where that failed. -/
def gc (rewritten : Result Nat) (cutoff minRetained : Nat) (s : Storage) : Storage × Result GcReport :=
  let keep := max minRetained 1
  match rewritten with
  | .error e => (s.pruned cutoff keep,.error e)
  | .ok bytes =>
    let counts := s.gcCounts cutoff keep
    (s.pruned cutoff keep,.ok ⟨counts.1,counts.2,(s.pruned cutoff keep).totalVersions,bytes⟩)

/-- What `gc_preview` adds up for one chain. -/
def previewChain (cutoff keep : Nat) (counts : Nat × Nat) (chain : Chain Record) : Nat × Nat :=
  if isDead cutoff chain then (counts.1 + chain.length,counts.2 + 1)
  else match rposition (fun v => decide (v.commitTs ≤ cutoff)) chain with
    | none => counts
    | some floor => (counts.1 + min floor (chain.length - keep),counts.2)

/-- The dry run: it walks the collections and their chains and changes nothing. -/
def gcPreview (cutoff minRetained : Nat) (s : Storage) : GcReport :=
  let keep := max minRetained 1
  let counts := s.records.toList.foldl (fun counts p =>
    p.2.toList.foldl (fun counts q => previewChain cutoff keep counts q.2) counts) (0,0)
  ⟨counts.1,counts.2,s.totalVersions - counts.1,0⟩

def allChains (s : Storage) : List (RecordId × Chain Record) := s.records.toList.flatMap (fun p => p.2.toList)

variable {β : Type} {s : Storage}
section
variable (s) (c : String) (i : RecordId)
include s c i

private theorem read_chain (f : Chain Record → Option β) (empty : f [] = none) :
    s.records[c]?.bind (fun chains => chains[i]?.bind f) = f (s.chainOf c i) := by
  simp only [chainOf,RecordMap.chainOf]
  cases s.records[c]? with
  | none => simp [empty]
  | some chains =>
    simp only [Option.bind_some]
    cases chains[i]? <;> simp [empty]

theorem get_eq : s.get c i = (latest (s.chainOf c i)).bind (·.value) := read_chain s c i _ rfl

theorem getAsOf_eq (readTs : Nat) :
    s.getAsOf c i readTs = (visibleAt (s.chainOf c i) readTs).bind (·.value) := read_chain s c i _ rfl

theorem latestCommitTs_eq : s.latestCommitTs c i = (latest (s.chainOf c i)).map (·.commitTs) := read_chain s c i _ rfl

end

private def chains (s : Storage) (c : String) : Chains := s.records[c]?.getD ∅

section
variable (s)
include s

private theorem filterMap_values (c : String) (f : Chain Record → Option β) :
    (s.values c).filterMap f = (s.chains c).toList.filterMap (fun p => f p.2) := by
  have empty : (∅ : Chains).toList = [] := by simp [← List.isEmpty_iff]
  simp only [values,chains]
  cases s.records[c]? <;> simp [empty,List.filterMap_map]

private theorem chains_bind (c : String) (i : RecordId) (f : Chain Record → Option β)
    (empty : f [] = none) : (s.chains c)[i]?.bind f = f (s.chainOf c i) := by
  rw [← read_chain s c i f empty]
  simp only [chains]
  cases s.records[c]? <;> simp

private theorem filterMap_values_congr (s' : Storage) (c : String) (f g : Chain Record → Option β)
    (emptyF : f [] = none) (emptyG : g [] = none) (same : ∀ i, f (s.chainOf c i) = g (s'.chainOf c i)) :
    (s.values c).filterMap f = (s'.values c).filterMap g := by
  rw [filterMap_values,filterMap_values]
  refine TreeMap.toList_filterMap_congr _ _ f g ?_
  intro i
  rw [chains_bind s c i f emptyF,chains_bind s' c i g emptyG]
  exact same i

private theorem mem_filterMap_values (c : String) (f : Chain Record → Option β) (empty : f [] = none)
    (b : β) : b ∈ (s.values c).filterMap f ↔ ∃ i, f (s.chainOf c i) = some b := by
  rw [filterMap_values]
  refine (TreeMap.mem_toList_filterMap _ f b).trans ?_
  simp only [chains_bind s c _ f empty]

private theorem ids_nodup (c : String) (f : Chain Record → Option Record) (empty : f [] = none)
    (keyed : ∀ i r, f (s.chainOf c i) = some r → r.id = i) : (((s.values c).filterMap f).map (·.id)).Nodup := by
  rw [filterMap_values]
  have own (p : RecordId × Chain Record) (inside : p ∈ (s.chains c).toList) (r : Record)
      (shown : f p.2 = some r) : r.id = p.1 := by
    apply keyed p.1 r
    rw [← chains_bind s c p.1 f empty,ExtTreeMap.mem_toList_iff_getElem?_eq_some.mp inside]
    exact shown
  refine List.pairwise_map.mpr (List.pairwise_filterMap.mpr ?_)
  refine List.Pairwise.imp_of_mem ?_ (List.pairwise_map.mp (TreeMap.keys_nodup (s.chains c)))
  intro p q insideP insideQ differ r shown r' shown' same
  exact differ ((own p insideP r shown).symm.trans (same.trans (own q insideQ r' shown')))

theorem mem_scan (c : String) (r : Record) : r ∈ s.scan c ↔ ∃ i, s.get c i = some r := by
  simp only [get_eq]
  exact mem_filterMap_values s c _ rfl r

theorem mem_scanAsOf (c : String) (t : Nat) (r : Record) : r ∈ s.scanAsOf c t ↔ ∃ i, s.getAsOf c i t = some r := by
  simp only [getAsOf_eq]
  exact mem_filterMap_values s c _ rfl r

theorem scanAsOf_congr (s' : Storage) (c : String) (t t' : Nat)
    (same : ∀ i, s.getAsOf c i t = s'.getAsOf c i t') : s.scanAsOf c t = s'.scanAsOf c t' := by
  simp only [getAsOf_eq] at same
  exact filterMap_values_congr s s' c _ _ rfl rfl same

theorem scanAsOf_eq_scan (s' : Storage) (c : String) (t : Nat)
    (same : ∀ i, s.getAsOf c i t = s'.get c i) : s.scanAsOf c t = s'.scan c := by
  simp only [get_eq,getAsOf_eq] at same
  exact filterMap_values_congr s s' c _ _ rfl rfl same

theorem scan_congr (s' : Storage) (c : String) (same : ∀ i, s.get c i = s'.get c i) : s.scan c = s'.scan c := by
  simp only [get_eq] at same
  exact filterMap_values_congr s s' c _ _ rfl rfl same

end

/-- Chains ascend, no version is newer than the watermark, and each record is stored under its own key. -/
structure WellFormed (s : Storage) : Prop where
  ascending : ∀ c i, Ascending (s.chainOf c i)
  bounded : ∀ c i, ∀ v ∈ s.chainOf c i, v.commitTs ≤ s.lastCommitTs
  keyed : ∀ c i, ∀ v ∈ s.chainOf c i, ∀ r, v.value = some r → r.collection = c ∧ r.id = i

namespace WellFormed
section
variable (ok : s.WellFormed)
include ok

section
variable (c : String)
include c

theorem getAsOf_watermark (i : RecordId) (t : Nat) (later : s.lastCommitTs ≤ t) : s.getAsOf c i t = s.get c i := by
  rw [getAsOf_eq,get_eq,visibleAt_eq_latest]
  intro v inside
  exact Nat.le_trans (ok.bounded c i v inside) later

theorem get_keyed (i : RecordId) (r : Record) (found : s.get c i = some r) : r.collection = c ∧ r.id = i := by
  rw [get_eq] at found
  obtain ⟨v,isLast,value⟩ := Option.bind_eq_some_iff.mp found
  exact ok.keyed c i v (List.mem_of_getLast? isLast) r value

theorem getAsOf_keyed (i : RecordId) (t : Nat) (r : Record) (found : s.getAsOf c i t = some r) : r.id = i := by
  rw [getAsOf_eq] at found
  obtain ⟨v,visible,value⟩ := Option.bind_eq_some_iff.mp found
  exact (ok.keyed c i v (mem_of_visibleAt _ _ _ visible) r value).2

theorem mem_scan_iff (r : Record) : r ∈ s.scan c ↔ s.get c r.id = some r := by
  rw [mem_scan]
  constructor
  · rintro ⟨i,found⟩
    rwa [(ok.get_keyed c i r found).2]
  · exact fun found => ⟨r.id,found⟩

theorem mem_scanAsOf_iff (t : Nat) (r : Record) : r ∈ s.scanAsOf c t ↔ s.getAsOf c r.id t = some r := by
  rw [mem_scanAsOf]
  constructor
  · rintro ⟨i,found⟩
    rwa [ok.getAsOf_keyed c i t r found]
  · exact fun found => ⟨r.id,found⟩

theorem scan_ids : ((s.scan c).map (·.id)).Nodup := by
  refine ids_nodup s c _ rfl ?_
  intro i r found
  rw [← get_eq] at found
  exact (ok.get_keyed c i r found).2

theorem scanAsOf_ids (t : Nat) : ((s.scanAsOf c t).map (·.id)).Nodup := by
  refine ids_nodup s c _ rfl ?_
  intro i r found
  rw [← getAsOf_eq] at found
  exact ok.getAsOf_keyed c i t r found

theorem find_scan (i : RecordId) : (s.scan c).find? (fun r => r.id == i) = s.get c i :=
  find_id_eq _ _ (ok.scan_ids c) (ok.mem_scan_iff c) (fun i r found => (ok.get_keyed c i r found).2) i

end

end

end WellFormed

theorem wellFormed_empty : (⟨∅,∅,0,0⟩ : Storage).WellFormed :=
  ⟨fun _ _ => .nil,by simp [chainOf,RecordMap.chainOf],by simp [chainOf,RecordMap.chainOf]⟩

theorem mem_chainOf_applied (s : Storage) (ts : Nat) (batch : Batch) (c : String) (i : RecordId)
    {v : Version Record} (inside : v ∈ (s.applied ts batch).chainOf c i) : v ∈ s.chainOf c i ∨ v.commitTs = ts := by
  have general : ∀ (versions : List (Version Record)) (chain : Chain Record), (∀ w ∈ versions, w.commitTs = ts) →
      v ∈ versions.foldl insertVersion chain → v ∈ chain ∨ v.commitTs = ts := by
    intro versions
    induction versions with
    | nil => exact fun chain _ held => .inl held
    | cons w rest ih =>
      intro chain dated held
      rcases ih _ (fun w inside => dated w (by simp [inside])) held with before | new
      · rcases mem_insertVersion chain w v before with rfl | old
        · exact .inr (dated v (by simp))
        · exact .inl old
      · exact .inr new
  unfold chainOf Storage.applied RecordMap.applyBatch at inside
  rw [RecordMap.chainOf_foldl_applyOp] at inside
  apply general _ _ _ inside
  intro w member
  obtain ⟨op,kept,rfl⟩ := List.mem_map.mp member
  obtain ⟨op',-,rfl⟩ := List.mem_map.mp (List.mem_of_mem_filter kept)
  exact LogOp.commitTs_setCommitTs ts op'

section
variable (ok : s.WellFormed) (ts : Nat) (batch : Batch) (newer : s.lastCommitTs < ts) (c : String)
  (i : RecordId)
include ok ts batch newer c i

theorem chainOf_applied : (s.applied ts batch).chainOf c i = match lastWrite batch.ops c i with
      | none => s.chainOf c i
      | some value => s.chainOf c i ++ [⟨ts,value⟩] := by
  simp only [chainOf,applied,RecordMap.applyBatch]
  rw [RecordMap.chainOf_foldl_applyOp]
  apply foldl_stamped
  intro v inside
  exact Nat.lt_of_le_of_lt (ok.bounded c i v inside) newer

theorem get_applied : (s.applied ts batch).get c i = (lastWrite batch.ops c i).getD (s.get c i) := by
  rw [get_eq,get_eq,chainOf_applied ok ts batch newer]
  cases lastWrite batch.ops c i <;> simp [latest]

theorem getAsOf_applied (t : Nat) (below : t < ts) : (s.applied ts batch).getAsOf c i t = s.getAsOf c i t := by
  rw [getAsOf_eq,getAsOf_eq,chainOf_applied ok ts batch newer]
  cases lastWrite batch.ops c i with
  | none => rfl
  | some value => simp [visibleAt_append_single,Nat.not_le.mpr below]

theorem latestCommitTs_applied : (s.applied ts batch).latestCommitTs c i =
      if (lastWrite batch.ops c i).isSome then some ts else s.latestCommitTs c i := by
  rw [latestCommitTs_eq,latestCommitTs_eq,chainOf_applied ok ts batch newer]
  cases lastWrite batch.ops c i <;> simp [latest]

end

theorem lastWrite_keyed (c : String) (i : RecordId) (r : Record)
    (found : lastWrite ops c i = some (some r)) : r.collection = c ∧ r.id = i := by
  obtain ⟨op,isLast,value⟩ := Option.map_eq_some_iff.mp found
  exact op.value_keyed c i r (by simpa using List.find?_some isLast) value

theorem watermark_applyCommittedBatch (s : Storage) (appended : Result Unit) (batch : Batch) (ts : Nat) :
    s.commitWatermark ≤ (s.applyCommittedBatch appended batch ts).1.commitWatermark ∧
      ((s.applyCommittedBatch appended batch ts).2 = .ok () →
        ts ≤ (s.applyCommittedBatch appended batch ts).1.commitWatermark) := by
  unfold applyCommittedBatch
  split
  · rename_i old
    exact ⟨le_rfl,fun _ => old⟩
  · rename_i newer
    have later : s.commitWatermark ≤ ts := (Nat.not_le.mp newer).le
    split
    · exact ⟨later,fun _ => le_rfl⟩
    · cases appended with
      | error e => exact ⟨le_rfl,fun done => nomatch done⟩
      | ok _ => exact ⟨later,fun _ => le_rfl⟩

theorem WellFormed.applied (ok : s.WellFormed) (ts : Nat) (batch : Batch)
    (newer : s.lastCommitTs < ts) : (s.applied ts batch).WellFormed where
  ascending c i := by
    rw [chainOf_applied ok ts batch newer]
    split
    · exact ok.ascending c i
    · refine List.pairwise_append.mpr ⟨ok.ascending c i,by simp,?_⟩
      simp only [List.mem_singleton,forall_eq]
      intro v inside
      exact Nat.lt_of_le_of_lt (ok.bounded c i v inside) newer
  bounded c i v inside := by
    rw [chainOf_applied ok ts batch newer] at inside
    have old : ∀ v ∈ s.chainOf c i, v.commitTs ≤ ts := fun v held =>
      Nat.le_of_lt (Nat.lt_of_le_of_lt (ok.bounded c i v held) newer)
    split at inside
    · exact old v inside
    · rcases List.mem_append.mp inside with held | added
      · exact old v held
      · rw [List.mem_singleton.mp added]
        exact Nat.le_refl ts
  keyed c i v inside r value := by
    rw [chainOf_applied ok ts batch newer] at inside
    split at inside
    · exact ok.keyed c i v inside r value
    · rename_i left found
      rcases List.mem_append.mp inside with held | added
      · exact ok.keyed c i v held r value
      · rw [List.mem_singleton.mp added] at value
        exact lastWrite_keyed batch.ops c i r (found.trans (congrArg some value))

section
variable (cutoff keep : Nat)
include cutoff keep

section
variable (s) (c : String) (i : RecordId)
include s c i

theorem chainOf_pruned : (s.pruned cutoff keep).chainOf c i = (prune cutoff keep (s.chainOf c i)).getD [] :=
  RecordMap.chainOf_gcChains cutoff keep s.records c i

theorem getAsOf_pruned (t : Nat) (later : cutoff ≤ t) : (s.pruned cutoff keep).getAsOf c i t = s.getAsOf c i t := by
  rw [getAsOf_eq,getAsOf_eq,chainOf_pruned]
  exact visibleAt_prune cutoff keep t _ later

theorem get_pruned (positive : 0 < keep) : (s.pruned cutoff keep).get c i = s.get c i := by
  rw [get_eq,get_eq,chainOf_pruned]
  exact latest_prune cutoff keep _ positive

theorem chainOf_pruned_live (positive : 0 < keep) (r : Record) (isLive : s.get c i = some r) :
    latest ((s.pruned cutoff keep).chainOf c i) = latest (s.chainOf c i) ∧
      ∃ dropped, (s.pruned cutoff keep).chainOf c i = (s.chainOf c i).drop dropped ∧
        min keep (s.chainOf c i).length ≤ ((s.pruned cutoff keep).chainOf c i).length := by
  rw [get_eq] at isLive
  obtain ⟨last,isLast,value⟩ := Option.bind_eq_some_iff.mp isLive
  rw [chainOf_pruned,prune_kept cutoff keep _ last isLast (Or.inr (by simp [value])),Option.getD_some]
  exact ⟨latest_drop_removable cutoff keep _ positive,_,rfl,removable_keeps cutoff keep _⟩

theorem latestCommitTs_pruned (positive : 0 < keep) (l : Nat)
    (found : s.latestCommitTs c i = some l) (newer : cutoff < l) :
    (s.pruned cutoff keep).latestCommitTs c i = some l := by
  rw [latestCommitTs_eq] at found ⊢
  obtain ⟨last,isLast,rfl⟩ := Option.map_eq_some_iff.mp found
  rw [chainOf_pruned,prune_kept cutoff keep _ last isLast (Or.inl newer),Option.getD_some,
    latest_drop_removable cutoff keep _ positive,found]

end

theorem allChains_pruned (s : Storage) : (s.pruned cutoff keep).allChains =
    s.allChains.filterMap (fun q => (prune cutoff keep q.2).map (fun chain => (q.1,chain))) := by
  simp only [allChains,pruned,RecordMap.gcChains,ExtTreeMap.toList_map,List.flatMap_map,ExtTreeMap.toList_filterMap,
    List.filterMap_flatMap]

theorem previewChain_eq (counts : Nat × Nat) (chain : Chain Record) :
    previewChain cutoff keep counts chain = if isDead cutoff chain then (counts.1 + chain.length,counts.2 + 1)
      else (counts.1 + removable cutoff keep chain,counts.2) := by
  unfold previewChain removable
  cases rposition (fun v : Version Record => decide (v.commitTs ≤ cutoff)) chain <;> rfl

theorem gcCounts_eq (s : Storage) : s.gcCounts cutoff keep =
    s.allChains.foldl (fun counts q => previewChain cutoff keep counts q.2) (0,0) := by
  simp only [gcCounts,allChains,previewChain_eq]

theorem preview_accounts (chains : List (RecordId × Chain Record)) (counts : Nat × Nat) :
    let kept := chains.filterMap (fun q => (prune cutoff keep q.2).map (fun chain => (q.1,chain)))
    let after := chains.foldl (fun counts q => previewChain cutoff keep counts q.2) counts
    (chains.map (fun q => q.2.length)).sum + counts.1 = (kept.map (fun q => q.2.length)).sum + after.1 ∧
      chains.length + counts.2 = kept.length + after.2 := by
  induction chains generalizing counts with
  | nil => exact ⟨rfl,rfl⟩
  | cons q rest ih =>
    obtain ⟨versions,whole⟩ := ih (previewChain cutoff keep counts q.2)
    simp only [List.map_cons,List.sum_cons,List.length_cons,List.foldl_cons,List.filterMap_cons]
    rw [previewChain_eq] at versions whole ⊢
    cases dead : isDead cutoff q.2 with
    | true =>
      have gone : prune cutoff keep q.2 = none := by simp [prune,dead]
      simp only [dead,gone,if_true,Option.map_none] at versions whole ⊢
      omega
    | false =>
      have cut : prune cutoff keep q.2 = some (q.2.drop (removable cutoff keep q.2)) := by simp [prune,dead]
      have bounded := removable_le cutoff keep q.2
      simp only [dead,cut,Bool.false_eq_true,if_false,Option.map_some,List.map_cons,List.sum_cons,List.length_cons,
        List.length_drop] at versions whole ⊢
      omega

end

/-- The dry run reports what the collection at the same arguments reports, and that is
what is gone from the chains. -/
theorem gc_preview_exact (cutoff minRetained bytes : Nat) (s : Storage) :
    ∃ s' report, s.gc (.ok bytes) cutoff minRetained = (s',.ok report) ∧
      (s.gcPreview cutoff minRetained).versionsReclaimed = report.versionsReclaimed ∧
      (s.gcPreview cutoff minRetained).recordsRemoved = report.recordsRemoved ∧
      (s.gcPreview cutoff minRetained).versionsAfter = report.versionsAfter ∧
      s'.totalVersions = report.versionsAfter ∧ s.totalVersions = s'.totalVersions + report.versionsReclaimed ∧
      s.allChains.length = s'.allChains.length + report.recordsRemoved := by
  refine ⟨_,_,rfl,?_⟩
  have same : s.gcCounts cutoff (max minRetained 1) = s.records.toList.foldl (fun counts p =>
      p.2.toList.foldl (fun counts q => previewChain cutoff (max minRetained 1) counts q.2) counts) (0,0) := by
    rw [gcCounts_eq,allChains,List.foldl_flatMap]
  obtain ⟨versions,whole⟩ := preview_accounts cutoff (max minRetained 1) s.allChains (0,0)
  rw [← allChains_pruned,← gcCounts_eq] at versions whole
  have left : s.totalVersions = (s.pruned cutoff (max minRetained 1)).totalVersions +
      (s.gcCounts cutoff (max minRetained 1)).1 := versions
  refine ⟨?_,?_,?_,rfl,left,whole⟩
  · rw [gcPreview,← same]
  · rw [gcPreview,← same]
  · rw [gcPreview,← same]
    exact Nat.sub_eq_of_eq_add left

private theorem mem_pruned (cutoff keep : Nat) (chain : Chain Record) (v : Version Record)
    (inside : v ∈ (prune cutoff keep chain).getD []) : v ∈ chain := by
  unfold prune at inside
  split at inside
  · simp at inside
  · exact List.mem_of_mem_drop inside

theorem WellFormed.pruned (ok : s.WellFormed) (cutoff keep : Nat) : (s.pruned cutoff keep).WellFormed where
  ascending c i := by
    rw [chainOf_pruned]
    unfold prune
    split
    · exact List.Pairwise.nil
    · exact (ok.ascending c i).drop _
  bounded c i v inside := by
    rw [chainOf_pruned] at inside
    exact ok.bounded c i v (mem_pruned cutoff keep _ v inside)
  keyed c i v inside := by
    rw [chainOf_pruned] at inside
    exact ok.keyed c i v (mem_pruned cutoff keep _ v inside)

end Storage

end AuraDb
