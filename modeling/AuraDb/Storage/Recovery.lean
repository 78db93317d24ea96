import AuraDb.Storage.Log

/-! What recovery rebuilds: opening a directory replays the batches of its segments, and a rewrite replaces them
by one batch that replays to the same chains. -/
namespace AuraDb
open Library Library.Framing Library.VersionChain Library.TreeMap Std RecordMap

def replay (batches : List Batch) : RecordMap := batches.foldl applyBatch ∅

variable (s : Storage) (batches : List Batch) (c : String) {codec : Codec Batch} {d : Disk} {segments : List Nat}

theorem replay_append (batch : Batch) : replay (batches ++ [batch]) = (replay batches).applyBatch batch := by
  simp [replay]

def allOps (batches : List Batch) : List LogOp := batches.flatMap (·.ops)

theorem replay_eq_foldl : replay batches = (allOps batches).foldl applyOp ∅ := by
  simp only [replay,allOps,List.foldl_flatMap]
  rfl

@[simp] theorem chainOf_empty (i : RecordId) : chainOf ∅ c i = [] := by
  simp [chainOf]

private theorem foldl_insertVersion_facts (versions chain : Chain Record) (ascending : Ascending chain) :
    Ascending (versions.foldl insertVersion chain) ∧
      ∀ v ∈ versions.foldl insertVersion chain, v ∈ chain ∨ v ∈ versions := by
  induction versions generalizing chain with
  | nil => exact ⟨ascending,fun v inside => Or.inl inside⟩
  | cons version rest ih =>
    obtain ⟨sorted,origin⟩ := ih (insertVersion chain version) (insertVersion_ascending chain version ascending)
    refine ⟨sorted,?_⟩
    intro v inside
    rcases origin v inside with old | later
    · rcases mem_insertVersion chain version v old with rfl | held
      · simp
      · exact Or.inl held
    · simp [later]

theorem wellFormed_foldl (ops : List LogOp) (from_ops : s.records = ops.foldl applyOp ∅)
    (bounded : ∀ op ∈ ops, op.commitTs ≤ s.lastCommitTs) : s.WellFormed := by
  have facts (c : String) (i : RecordId) :
      Ascending (s.chainOf c i) ∧ ∀ v ∈ s.chainOf c i, ∃ op ∈ ops, op.targets c i = true ∧ v = op.version := by
    have chain : s.chainOf c i = ((ops.filter (·.targets c i)).map LogOp.version).foldl insertVersion [] := by
      rw [Storage.chainOf,from_ops,chainOf_foldl_applyOp,chainOf_empty]
    obtain ⟨sorted,origin⟩ := foldl_insertVersion_facts
      ((ops.filter (·.targets c i)).map LogOp.version) [] List.Pairwise.nil
    rw [chain]
    refine ⟨sorted,?_⟩
    intro v inside
    rcases origin v inside with none | fromOps
    · simp at none
    · obtain ⟨op,kept,rfl⟩ := List.mem_map.mp fromOps
      obtain ⟨held,hit⟩ := List.mem_filter.mp kept
      exact ⟨op,held,hit,rfl⟩
  constructor
  · exact fun c i => (facts c i).1
  · intro c i v inside
    obtain ⟨op,held,hit,rfl⟩ := (facts c i).2 v inside
    exact bounded op held
  · intro c i v inside r value
    obtain ⟨op,held,hit,rfl⟩ := (facts c i).2 v inside
    exact op.value_keyed c i r hit value

theorem Storage.WellFormed.congr {s s' : Storage} (ok : s.WellFormed)
    (same : ∀ c i, s'.chainOf c i = s.chainOf c i) (later : s.lastCommitTs ≤ s'.lastCommitTs) : s'.WellFormed where
  ascending c i := same c i ▸ ok.ascending c i
  bounded c i v inside := Nat.le_trans (ok.bounded c i v (same c i ▸ inside)) later
  keyed c i v inside := ok.keyed c i v (same c i ▸ inside)

theorem version_retainedOp (i : RecordId) (v : Version Record) : (retainedOp c i v).version = v := by
  obtain ⟨ts,value⟩ := v
  cases value <;> rfl

theorem targets_retainedOp (c' : String) (i i' : RecordId) (v : Version Record)
    (keyed : ∀ r, v.value = some r → r.collection = c ∧ r.id = i) :
    (retainedOp c i v).targets c' i' = (c == c' && i == i') := by
  unfold retainedOp
  split
  · rename_i record value
    obtain ⟨rfl,rfl⟩ := keyed record value
    rfl
  · rfl

private theorem retained_chain (c' : String) (i i' : RecordId) (chain : Chain Record)
    (keyed : ∀ v ∈ chain, ∀ r, v.value = some r → r.collection = c' ∧ r.id = i') :
    ((chain.map (retainedOp c' i')).filter (·.targets c i)).map LogOp.version =
      if c' = c ∧ i' = i then chain else [] := by
  induction chain with
  | nil => simp
  | cons v rest ih =>
    have hit := targets_retainedOp c' c i' i v (keyed v (by simp))
    have tail := ih (fun w inside => keyed w (by simp [inside]))
    by_cases same : c' = c ∧ i' = i
    · obtain ⟨rfl,rfl⟩ := same
      simpa [hit,version_retainedOp] using tail
    · simpa [hit,same] using tail

theorem retainedOps_filter (ok : s.WellFormed) (c : String) (i : RecordId) :
    ((retainedOps s.records).filter (·.targets c i)).map LogOp.version = s.chainOf c i := by
  have inner (c' : String) (chains : Chains) (outer : s.records[c']? = some chains) (i' : RecordId)
      (chain : Chain Record) (held : chains[i']? = some chain) :
      ((chain.map (retainedOp c' i')).filter (·.targets c i)).map LogOp.version =
        if c' = c ∧ i' = i then chain else [] := by
    have same : s.chainOf c' i' = chain := by simp [Storage.chainOf,chainOf,outer,held]
    exact retained_chain c c' i i' chain (same ▸ ok.keyed c' i')
  simp only [retainedOps,List.filter_flatMap,List.map_flatMap]
  rw [flatMap_toList_single s.records c]
  · cases outer : s.records[c]? with
    | none => simp [Storage.chainOf,chainOf,outer]
    | some chains =>
      rw [Option.elim_some,flatMap_toList_single chains i]
      · cases held : chains[i]? with
        | none => simp [Storage.chainOf,chainOf,outer,held]
        | some chain => simp [inner c chains outer i chain held,Storage.chainOf,chainOf,outer,held]
      · intro i' chain held apart
        simp [inner c chains outer i' chain held,apart]
  · intro c' chains outer apart
    rw [List.flatMap_eq_nil_iff]
    rintro ⟨i',chain⟩ held
    simp [inner c' chains outer i' chain (ExtTreeMap.mem_toList_iff_getElem?_eq_some.mp held),apart]

theorem retainedOps_bounded (ok : s.WellFormed) : ∀ op ∈ retainedOps s.records, op.commitTs ≤ s.lastCommitTs := by
  intro op inside
  simp only [retainedOps,List.mem_flatMap,List.mem_map] at inside
  obtain ⟨⟨c,chains⟩,outer,⟨i,chain⟩,held,v,member,rfl⟩ := inside
  have same : s.chainOf c i = chain := by
    rw [ExtTreeMap.mem_toList_iff_getElem?_eq_some] at outer held
    simp [Storage.chainOf,chainOf,outer,held]
  have stamped : (retainedOp c i v).commitTs = v.commitTs := congrArg Version.commitTs (version_retainedOp c i v)
  rw [stamped]
  exact ok.bounded c i v (same ▸ member)

theorem chainOf_retained (ok : s.WellFormed) (txnId : TxnId) (c : String) (i : RecordId) :
    (applyBatch ∅ ⟨txnId,retainedOps s.records⟩).chainOf c i = s.chainOf c i := by
  rw [applyBatch,chainOf_foldl_applyOp,retainedOps_filter s ok,chainOf_empty]
  exact foldl_insertVersion_ascending [] _ (ok.ascending c i)

namespace Disk
variable (d : Disk) (segment : Nat) (other : Nat) (bytes : Bytes)

theorem read_append_same (present : segment ∈ d.files) :
    (d.append segment bytes).read segment = d.read segment ++ bytes := by
  obtain ⟨file,found⟩ := ExtTreeMap.mem_iff_isSome_getElem?.mp present |> Option.isSome_iff_exists.mp
  simp [read,append,found]

theorem read_append_other (apart : other ≠ segment) : (d.append segment bytes).read other = d.read other := by
  simp [read,append,getElem?_alter_eq,Ne.symm apart]

theorem read_create : (d.create segment).read other = d.read other := by
  simp only [read,create,getElem?_alter_eq]
  split
  · subst other
    simp
  · rfl

theorem read_write : (d.write segment bytes).read other = if segment = other then bytes else d.read other := by
  simp only [read,write,getElem?_insert_eq]
  split <;> rfl

theorem read_setLen_same (len : Nat) : (d.setLen segment len).read segment = (d.read segment).take len := by
  simp only [read,setLen,getElem?_alter_eq,if_true]
  cases d.files[segment]? <;> simp

theorem read_setLen_other (len : Nat) (apart : other ≠ segment) :
    (d.setLen segment len).read other = d.read other := by
  simp [read,setLen,getElem?_alter_eq,Ne.symm apart]

theorem foldl_remove (segments : List Nat) (d : Disk) (kept : Nat) (apart : kept ∉ segments) :
    (segments.foldl Disk.remove d).files[kept]? = d.files[kept]? ∧
      (segments.foldl Disk.remove d).manifest = d.manifest ∧
      (segments.foldl Disk.remove d).catalog = d.catalog := by
  induction segments generalizing d with
  | nil => exact ⟨rfl,rfl,rfl⟩
  | cons segment rest ih =>
    obtain ⟨here,there⟩ := not_or.mp (List.mem_cons.not.mp apart)
    obtain ⟨files,manifest,catalog⟩ := ih (d.remove segment) there
    rw [List.foldl_cons,files,manifest,catalog]
    exact ⟨by simp [remove,getElem?_erase_eq,Ne.symm here],rfl,rfl⟩

end Disk

inductive Holds (codec : Codec Batch) (d : Disk) : List Nat → List Batch → Prop where
  | nil : Holds codec d [] []
  | cons (segment : Nat) (rest : List Nat) (items batches : List Batch)
      (head : codec.Frames 0 (d.read segment) items) (tail : Holds codec d rest batches) :
      Holds codec d (segment::rest) (items ++ batches)

namespace Holds
variable {d d' : Disk} {batches : List Batch}

theorem congr (holds : Holds codec d segments batches)
    (same : ∀ segment ∈ segments, d'.read segment = d.read segment) : Holds codec d' segments batches := by
  induction holds with
  | nil => exact .nil
  | cons segment rest items batches head tail ih =>
    refine .cons segment rest items batches ?_ (ih (fun other inside => same other (by simp [inside])))
    rwa [same segment (by simp)]

theorem append (holds : Holds codec d segments batches) (distinct : segments.Nodup) (active : Nat)
    (isLast : segments.getLast? = some active) (present : active ∈ d.files) (batch : Batch)
    (stores : codec.Stores batch) (fits : (d.read active).length + (codec.frame batch).length < 2^64) :
    Holds codec (d.append active (codec.frame batch)) segments (batches ++ [batch]) := by
  induction holds with
  | nil => simp at isLast
  | cons segment rest items batches head tail ih =>
    obtain ⟨apart,distinct⟩ := List.nodup_cons.mp distinct
    cases rest with
    | nil =>
      obtain rfl : segment = active := by simpa using isLast
      cases tail
      rw [List.append_nil,← List.append_nil (items ++ [batch])]
      refine .cons segment [] (items ++ [batch]) [] ?_ .nil
      rw [Disk.read_append_same d segment _ present]
      exact head.append batch stores (by simpa using fits)
    | cons second rest =>
      have lastInside : (second::rest).getLast? = some active := by simpa using isLast
      rw [List.append_assoc]
      refine .cons segment _ items _ ?_ (ih distinct lastInside)
      rwa [Disk.read_append_other d active segment]
      rintro rfl
      exact apart (List.mem_of_getLast? lastInside)

end Holds

theorem parseSegment_ok (codec : Codec Batch) (buf : Bytes) (parsed : Parsed Batch) :
    parseSegment codec buf = .ok parsed ↔ codec.parse buf = .ok parsed := by
  unfold parseSegment
  split <;> simp_all

theorem recoverSegments_holds {batches : List Batch}
    (holds : Holds codec d segments batches) (migrating : Bool) (r : Recovery) :
    recoverSegments codec migrating segments d r = (d,.ok (batches.foldl (recoverBatch migrating) r)) := by
  induction holds generalizing r with
  | nil => rfl
  | cons segment rest items batches head tail ih =>
    have parsed := (parseSegment_ok codec _ _).mpr head.parse
    simp only [recoverSegments,parsed,Bool.false_and,Bool.false_eq_true,if_false]
    rw [ih,List.foldl_append]

theorem recoverSegments_ok (migrating : Bool) {d' : Disk} {r r' : Recovery} (distinct : segments.Nodup)
    (recovered : recoverSegments codec migrating segments d r = (d',.ok r')) :
    ∃ batches, Holds codec d' segments batches ∧ r' = batches.foldl (recoverBatch migrating) r ∧
      d'.manifest = d.manifest ∧ d'.catalog = d.catalog ∧
      ∀ other ∉ segments, d'.read other = d.read other := by
  induction segments generalizing d r with
  | nil =>
    cases recovered
    exact ⟨[],.nil,rfl,rfl,rfl,fun _ _ => rfl⟩
  | cons segment rest ih =>
    obtain ⟨apart,distinct⟩ := List.nodup_cons.mp distinct
    simp only [recoverSegments] at recovered
    cases scanned : parseSegment codec (d.read segment) with
    | error e => simp [scanned] at recovered
    | ok parsed =>
      obtain ⟨frames,all⟩ := Codec.frames_of_parse ((parseSegment_ok codec _ _).mp scanned)
      simp only [scanned] at recovered
      split_ifs at recovered with sealed torn
      · simp at recovered
      · -- a torn batch is cut off the last segment
        obtain rfl : rest = [] := by
          cases rest with
          | nil => rfl
          | cons second rest => simp [torn] at sealed
        cases recovered
        refine ⟨parsed.items,?_,rfl,rfl,rfl,?_⟩
        · rw [← List.append_nil parsed.items]
          refine .cons segment [] parsed.items [] ?_ .nil
          rwa [Disk.read_setLen_same]
        · intro other outside
          rw [Disk.read_setLen_other d segment other _ (by simpa using outside)]
      · obtain ⟨batches,tail,replayed,manifest,catalog,frame⟩ := ih distinct recovered
        refine ⟨parsed.items ++ batches,.cons segment rest _ _ ?_ tail,?_,manifest,catalog,?_⟩
        · rw [frame segment apart]
          rwa [all (by simpa using torn),List.take_length] at frames
        · rw [List.foldl_append,replayed]
        · exact fun other outside => frame other (fun inside => outside (by simp [inside]))

private theorem recovered_ops (migrating : Bool) (batches : List Batch) (r : Recovery) (before : List LogOp)
    (built : r.records = before.foldl applyOp ∅) (bounded : ∀ op ∈ before, op.commitTs ≤ r.lastCommitTs) :
    ∃ ops, (batches.foldl (recoverBatch migrating) r).records = (before ++ ops).foldl applyOp ∅ ∧
      (∀ op ∈ before ++ ops, op.commitTs ≤ (batches.foldl (recoverBatch migrating) r).lastCommitTs) ∧
      (migrating = false → ops = allOps batches) := by
  have grows (ops : List LogOp) (ts : Nat) :
      ts ≤ ops.foldl (fun ts op => max ts op.commitTs) ts ∧
        ∀ op ∈ ops, op.commitTs ≤ ops.foldl (fun ts op => max ts op.commitTs) ts := by
    induction ops generalizing ts with
    | nil => simp
    | cons op rest ih =>
      obtain ⟨above,members⟩ := ih (max ts op.commitTs)
      refine ⟨Nat.le_trans (Nat.le_max_left _ _) above,?_⟩
      intro other inside
      rcases List.mem_cons.mp inside with rfl | later
      · exact Nat.le_trans (Nat.le_max_right _ _) above
      · exact members other later
  induction batches generalizing r before with
  | nil => exact ⟨[],by simpa using built,by simpa using bounded,fun _ => rfl⟩
  | cons batch rest ih =>
    let now := if migrating then restamp r.migrateTs batch.ops else batch.ops
    obtain ⟨above,members⟩ := grows now r.lastCommitTs
    obtain ⟨ops,records,below,exact⟩ := ih (recoverBatch migrating r batch) (before ++ now)
      (by simp only [recoverBatch,applyBatch,built,List.foldl_append]; rfl)
      (by
        intro op inside
        rcases List.mem_append.mp inside with old | new
        · exact Nat.le_trans (bounded op old) above
        · exact members op new)
    refine ⟨now ++ ops,?_,?_,?_⟩
    · rw [List.foldl_cons,records,List.append_assoc]
    · rw [← List.append_assoc]
      exact below
    · intro current
      simp [allOps,now,current,exact current]

theorem chainOf_ensureCollections (names : List String) (records : RecordMap) (c : String) (i : RecordId) :
    (ensureCollections names records).chainOf c i = records.chainOf c i := by
  induction names generalizing records with
  | nil => rfl
  | cons name rest ih =>
    rw [ensureCollections,List.foldl_cons,← ensureCollections,ih]
    simp only [chainOf,getElem?_alter_eq]
    split
    · subst name
      cases records[c]? <;> simp
    · rfl

theorem recoveredStorage_facts (catalog : ExtTreeMap String CollectionSchema compare) (migrating : Bool)
    (batches : List Batch) (ts : Nat) :
    let s := recoveredStorage catalog (batches.foldl (recoverBatch migrating) ⟨∅,0,ts,0⟩)
    s.WellFormed ∧ (migrating = false → (∀ c i, s.chainOf c i = (replay batches).chainOf c i) ∧
      ∀ op ∈ allOps batches, op.commitTs ≤ s.lastCommitTs) := by
  intro s
  obtain ⟨ops,records,below,exact⟩ := recovered_ops migrating batches ⟨∅,0,ts,0⟩ [] rfl (by simp)
  rw [List.nil_append] at records below
  have chains (c : String) (i : RecordId) :
      s.chainOf c i = (ops.foldl applyOp ∅).chainOf c i := by
    rw [← records]
    exact chainOf_ensureCollections _ _ c i
  refine ⟨?_,?_⟩
  · exact (wellFormed_foldl { s with records := ops.foldl applyOp ∅ } ops rfl below).congr
      chains (Nat.le_refl _)
  · intro current
    obtain rfl := exact current
    exact ⟨fun c i => by rw [chains,replay_eq_foldl],below⟩

end AuraDb
