import AuraDb.Raft.Log

/-! What a Raft log storage holds. Behind the retained entries stands one whole log,
numbered from one; compaction forgets the front of it and keeps the term at the
boundary. -/
namespace AuraDb.Raft
open RaftStorage

def Numbered (log : List LogEntry) : Prop := ∀ i e, log[i]? = some e → e.index = i + 1

def termOf (log : List LogEntry) (index : Nat) : Option Nat :=
  if index = 0 then some 0 else log[index - 1]?.map LogEntry.term

variable {log shorter : List LogEntry} {entry : LogEntry}

theorem termOf_shorter (inside : shorter <+: log) {i : Nat}
    (short : i ≤ shorter.length) : termOf shorter i = termOf log i := by
  obtain ⟨rest,rfl⟩ := inside
  unfold termOf
  split
  · rfl
  · rw [List.getElem?_append_left (by omega)]

theorem Numbered.concat (numbered : Numbered log)
    (next : entry.index = log.length + 1) : Numbered (log ++ [entry]) := by
  intro i e found
  rcases Nat.lt_or_ge i log.length with old | new
  · rw [List.getElem?_append_left old] at found
    exact numbered i e found
  · rw [List.getElem?_append_right new] at found
    have last : i - log.length = 0 ∧ entry = e := by simpa [List.getElem?_singleton] using found
    rw [← last.2,next]
    omega

theorem Numbered.of_shorter (numbered : Numbered log) (inside : shorter <+: log) : Numbered shorter := by
  intro i e found
  obtain ⟨rest,rfl⟩ := inside
  exact numbered i e (by rw [List.getElem?_append_left (List.getElem?_eq_some_iff.mp found).1,found])

/-- A save of the hard state may fail, and then changes nothing. -/
class FallibleHardState (S : Type) [RaftStorage S] : Prop where
  save_cases (s : S) (hs : HardState) :
    (saveHardState s hs).2 = .ok () ∧ hardState (saveHardState s hs).1 = hs ∨
      (∃ e, (saveHardState s hs).2 = .error e) ∧ hardState (saveHardState s hs).1 = hardState s
  hardState_append (s : S) (entries : List LogEntry) : hardState (append s entries).1 = hardState s
  hardState_truncate (s : S) (i : Nat) : hardState (truncateFrom s i).1 = hardState s

attribute [simp] FallibleHardState.hardState_append FallibleHardState.hardState_truncate

/-- The hard state is kept as saved, whatever becomes of the log. -/
class LawfulHardState (S : Type) [RaftStorage S] : Prop where
  save_ok (s : S) (hs : HardState) : (saveHardState s hs).2 = .ok ()
  hardState_save (s : S) (hs : HardState) : hardState (saveHardState s hs).1 = hs
  hardState_append (s : S) (entries : List LogEntry) : hardState (append s entries).1 = hardState s
  hardState_truncate (s : S) (i : Nat) : hardState (truncateFrom s i).1 = hardState s

attribute [simp] LawfulHardState.save_ok LawfulHardState.hardState_save
  LawfulHardState.hardState_append LawfulHardState.hardState_truncate

instance {S : Type} [RaftStorage S] [LawfulHardState S] : FallibleHardState S where
  save_cases s hs := .inl ⟨LawfulHardState.save_ok s hs,LawfulHardState.hardState_save s hs⟩
  hardState_append := LawfulHardState.hardState_append
  hardState_truncate := LawfulHardState.hardState_truncate

class LawfulRaftStorage (S : Type) [RaftStorage S] extends LawfulHardState S where
  /-- The last index that is no longer retained. -/
  base : S → Nat
  Holds : S → List LogEntry → Prop
  numbered {s : S} {log : List LogEntry} : Holds s log → Numbered log
  base_le {s : S} {log : List LogEntry} : Holds s log → base s ≤ log.length
  lastIndex_eq {s : S} {log : List LogEntry} : Holds s log → lastIndex s = log.length
  lastTerm_eq {s : S} {log : List LogEntry} : Holds s log →
    lastTerm s = Library.Consensus.lastTerm log
  termAt_eq {s : S} {log : List LogEntry} {i : Nat} : Holds s log → base s ≤ i →
    termAt s i = termOf log i
  termAt_cut {s : S} {log : List LogEntry} {i : Nat} : Holds s log → 0 < i → i < base s →
    termAt s i = none
  entryAt_eq {s : S} {log : List LogEntry} {i : Nat} : Holds s log → base s < i →
    entryAt s i = log[i - 1]?
  entriesFrom_eq {s : S} {log : List LogEntry} {i : Nat} : Holds s log →
    entriesFrom s i = log.drop (max (i - 1) (base s))
  append_next {s : S} {log : List LogEntry} {entry : LogEntry} : Holds s log →
    entry.index = log.length + 1 → Library.Consensus.lastTerm log ≤ entry.term →
    ∃ s', append s [entry] = (s',.ok ()) ∧ Holds s' (log ++ [entry]) ∧ base s' = base s
  append_gap {s : S} {log : List LogEntry} {entry : LogEntry} : Holds s log →
    entry.index ≠ log.length + 1 → ∃ e, append s [entry] = (s,.error e)
  truncate {s : S} {log : List LogEntry} {i : Nat} : Holds s log → base s < i →
    ∃ s', truncateFrom s i = (s',.ok ()) ∧ Holds s' (log.take (i - 1)) ∧ base s' = base s
  truncate_cut {s : S} {log : List LogEntry} {i : Nat} : Holds s log → 0 < i → i ≤ base s →
    ∃ e, truncateFrom s i = (s,.error e)
  base_save (s : S) (hs : HardState) : base (saveHardState s hs).1 = base s
  save {s : S} {log : List LogEntry} (hs : HardState) : Holds s log → Holds (saveHardState s hs).1 log

private theorem validate_next {last : Nat} {lastTerm : Nat} (next : entry.index = last + 1)
    (later : lastTerm ≤ entry.term) : validateSuffix last lastTerm [entry] = .ok () := by
  simp [validateSuffix,next,Nat.not_lt.mpr later]

private theorem validate_gap {last : Nat} {lastTerm : Nat}
    (gap : entry.index ≠ last + 1) : ∃ e, validateSuffix last lastTerm [entry] = .error e := by
  simp [validateSuffix,gap]

instance : LawfulHardState MemStorage where
  save_ok _ _ := rfl
  hardState_save _ _ := rfl
  hardState_append s entries := by
    change (s.append entries).1.hardState = s.hardState
    unfold MemStorage.append
    split <;> rfl
  hardState_truncate _ _ := rfl

instance : LawfulRaftStorage MemStorage where
  base _ := 0
  Holds s log := s.entries = log ∧ Numbered log
  numbered held := held.2
  base_le _ := Nat.zero_le _
  lastIndex_eq held := congrArg List.length held.1
  lastTerm_eq held := held.1 ▸ rfl
  termAt_eq held _ := held.1 ▸ rfl
  termAt_cut _ _ cut := absurd cut (Nat.not_lt_zero _)
  entryAt_eq {s log i} held after := by
    rw [← held.1]
    exact if_neg (Nat.ne_of_gt after)
  entriesFrom_eq held := by
    rw [← held.1]
    simp [entriesFrom,MemStorage.entriesFrom]
  append_next {s log entry} held next later := by
    obtain ⟨rfl,numbered⟩ := held
    refine ⟨{ s with entries := s.entries ++ [entry] },?_,⟨rfl,numbered.concat next⟩,rfl⟩
    have valid : validateSuffix s.lastIndex s.lastTerm [entry] = .ok () := validate_next next later
    simp [append,MemStorage.append,valid]
  append_gap {s log entry} held gap := by
    obtain ⟨rfl,numbered⟩ := held
    obtain ⟨e,invalid⟩ : ∃ e, validateSuffix s.lastIndex s.lastTerm [entry] = .error e := validate_gap gap
    exact ⟨e,by simp [append,MemStorage.append,invalid]⟩
  truncate {s log i} held _ := by
    obtain ⟨rfl,numbered⟩ := held
    exact ⟨_,rfl,⟨rfl,numbered.of_shorter (List.take_prefix ..)⟩,rfl⟩
  truncate_cut _ positive cut := absurd cut (Nat.not_le.mpr positive)
  base_save _ _ := rfl
  save _ held := held

namespace FileStorage

structure Retains (s : FileStorage) (log : List LogEntry) : Prop where
  numbered : Numbered log
  base_le : s.baseIndex ≤ log.length
  entries : s.entries = log.drop s.baseIndex
  baseTerm : termOf log s.baseIndex = some s.baseTerm

variable {s : FileStorage} {log : List LogEntry}
section
variable (held : s.Retains log)
include held

theorem Retains.lastIndex : s.lastIndex = log.length := by
  have le := held.base_le
  simp only [FileStorage.lastIndex,held.entries,List.length_drop]
  omega

theorem Retains.lastTerm : s.lastTerm = Library.Consensus.lastTerm log := by
  have boundary := held.baseTerm
  simp only [FileStorage.lastTerm,held.entries,Library.Consensus.lastTerm]
  rcases Nat.lt_or_ge s.baseIndex log.length with retained | all
  · rw [List.getLast?_drop,if_neg (by omega)]
    cases last : log.getLast? with
    | none => simp_all
    | some e => rfl
  · have whole : s.baseIndex = log.length := le_antisymm held.base_le all
    rw [List.drop_eq_nil_of_le all]
    rw [whole,termOf] at boundary
    split at boundary
    · simp_all
    · rw [← List.getLast?_eq_getElem?] at boundary
      obtain ⟨e,last,same⟩ := Option.map_eq_some_iff.mp boundary
      rw [last]
      exact same.symm

theorem Retains.slot {i : Nat} (after : s.baseIndex < i) :
    (s.slot i).bind (fun rel => s.entries[rel]?) = log[i - 1]? := by
  have position : s.baseIndex + (i - s.baseIndex - 1) = i - 1 := by omega
  rw [FileStorage.slot,if_neg (by omega)]
  split
  · rw [Option.bind_some,held.entries,List.getElem?_drop,position]
  · rename_i beyond
    rw [held.entries,List.length_drop] at beyond
    rw [Option.bind_none,List.getElem?_eq_none (by omega)]

theorem Retains.termAt {i : Nat} (after : s.baseIndex ≤ i) : s.termAt i = termOf log i := by
  rcases Nat.eq_or_lt_of_le after with boundary | later
  · subst boundary
    rw [held.baseTerm,FileStorage.termAt]
    split
    · rename_i zero
      simpa [termOf,zero] using held.baseTerm
    · rw [if_pos rfl]
  · rw [FileStorage.termAt,termOf,if_neg (by omega),if_neg (by omega),if_neg (by omega)]
    rw [← held.slot later]
    cases s.slot i <;> rfl

theorem Retains.append (next : entry.index = log.length + 1) :
    ({ s with entries := s.entries ++ [entry] } : FileStorage).Retains (log ++ [entry]) where
  numbered := held.numbered.concat next
  base_le := by
    have le := held.base_le
    simp only [List.length_append]
    omega
  entries := by
    simp only [held.entries]
    rw [List.drop_append_of_le_length held.base_le]
  baseTerm := (termOf_shorter (List.prefix_append log [entry]) held.base_le).symm.trans held.baseTerm

theorem Retains.truncate {i : Nat} (after : s.baseIndex < i) :
    ({ s with entries := s.entries.take (i - s.baseIndex - 1) } : FileStorage).Retains
      (log.take (i - 1)) where
  numbered := held.numbered.of_shorter (List.take_prefix ..)
  base_le := by
    have le := held.base_le
    simp only [List.length_take]
    omega
  entries := by
    have position : i - s.baseIndex - 1 = i - 1 - s.baseIndex := by omega
    simp only [held.entries]
    rw [List.drop_take,position]
  baseTerm := by
    have short : s.baseIndex ≤ (log.take (i - 1)).length := by
      have le := held.base_le
      simp only [List.length_take]
      omega
    exact (termOf_shorter (List.take_prefix ..) short).trans held.baseTerm

end

instance : LawfulHardState FileStorage where
  save_ok _ _ := rfl
  hardState_save _ _ := rfl
  hardState_append s entries := by
    change (s.append entries).1.hardState = s.hardState
    unfold FileStorage.append
    split <;> rfl
  hardState_truncate s i := by
    change (s.truncateFrom i).1.hardState = s.hardState
    unfold FileStorage.truncateFrom
    split <;> rfl

instance : LawfulRaftStorage FileStorage where
  base := baseIndex
  Holds := Retains
  numbered held := held.numbered
  base_le held := held.base_le
  lastIndex_eq held := held.lastIndex
  lastTerm_eq held := held.lastTerm
  termAt_eq held after := held.termAt after
  termAt_cut {s log i} held positive cut := by
    change s.termAt i = none
    rw [FileStorage.termAt,if_neg (by omega),if_neg (by omega),FileStorage.slot,if_pos (by omega)]
    rfl
  entryAt_eq held after := held.slot after
  entriesFrom_eq {s log i} held := by
    change s.entriesFrom i = _
    have le := held.base_le
    have position : max i (s.baseIndex + 1) - s.baseIndex - 1 = max (i - 1) s.baseIndex - s.baseIndex := by omega
    rw [FileStorage.entriesFrom,FileStorage.slot,if_neg (by omega),position,held.entries,List.length_drop]
    split
    · rename_i rel within
      split at within
      · cases within
        rw [List.drop_drop]
        congr 1
        omega
      · cases within
    · rename_i beyond
      split at beyond
      · cases beyond
      · rw [List.drop_eq_nil_of_le (by omega)]
  append_next {s log entry} held next later := by
    refine ⟨{ s with entries := s.entries ++ [entry] },?_,held.append next,rfl⟩
    have valid : validateSuffix s.lastIndex s.lastTerm [entry] = .ok () := by
      apply validate_next
      · rw [held.lastIndex,next]
      · rw [held.lastTerm]
        exact later
    change s.append [entry] = _
    rw [FileStorage.append,valid]
  append_gap {s log entry} held gap := by
    obtain ⟨e,invalid⟩ : ∃ e, validateSuffix s.lastIndex s.lastTerm [entry] = .error e := by
      apply validate_gap
      rw [held.lastIndex]
      exact gap
    refine ⟨e,?_⟩
    change s.append [entry] = _
    rw [FileStorage.append,invalid]
  truncate {s log i} held after := by
    refine ⟨_,?_,held.truncate after,rfl⟩
    change s.truncateFrom i = _
    rw [FileStorage.truncateFrom,if_neg (by omega)]
  truncate_cut {s log i} held positive cut := by
    refine ⟨.compacted i s.baseIndex,?_⟩
    change s.truncateFrom i = _
    rw [FileStorage.truncateFrom,if_pos (by omega)]
  base_save _ _ := rfl
  save _ held := { held with }

theorem filter_after (numbered : Numbered log) {base upTo : Nat} (le : base ≤ upTo) :
    (log.drop base).filter (fun e => decide (e.index > upTo)) = log.drop upTo := by
  have split : log.drop base = (log.drop base).take (upTo - base) ++ log.drop upTo := by
    have more : base + (upTo - base) = upTo := by omega
    have whole := (List.take_append_drop (upTo - base) (log.drop base)).symm
    rwa [List.drop_drop,more] at whole
  rw [split,List.filter_append]
  have front : ((log.drop base).take (upTo - base)).filter (fun e => decide (e.index > upTo)) = [] := by
    rw [List.filter_eq_nil_iff]
    intro e inside
    obtain ⟨i,found⟩ := List.mem_iff_getElem?.mp inside
    have within : i < upTo - base := by
      have bound := (List.getElem?_eq_some_iff.mp found).1
      simp only [List.length_take] at bound
      omega
    rw [List.getElem?_take_of_lt within,List.getElem?_drop] at found
    have position := numbered _ e found
    simp only [decide_eq_true_eq]
    omega
  have back : (log.drop upTo).filter (fun e => decide (e.index > upTo)) = log.drop upTo := by
    rw [List.filter_eq_self]
    intro e inside
    obtain ⟨i,found⟩ := List.mem_iff_getElem?.mp inside
    rw [List.getElem?_drop] at found
    have position := numbered _ e found
    simp only [decide_eq_true_eq]
    omega
  rw [front,back,List.nil_append]

theorem planCompaction_compacted {upTo applied : Nat} {dryRun : Bool} {plan : CompactionOutcome}
    (planned : s.planCompaction upTo applied dryRun = .ok plan) (compacted : plan.compacted = true) :
    s.baseIndex < upTo ∧ upTo ≤ s.lastIndex ∧ upTo ≤ s.hardState.commitIndex ∧ upTo ≤ applied ∧
      s.termAt upTo = some plan.lastIncludedTerm := by
  unfold planCompaction at planned
  simp only at planned
  split at planned
  · cases planned
  split at planned
  · cases planned
  split at planned
  · cases planned
  split at planned
  · cases planned
    cases compacted
  split at planned
  · cases planned
  · rename_i term found
    cases planned
    exact ⟨by omega,by omega,by omega,by omega,found⟩

theorem Retains.compact (held : s.Retains log) (upTo applied : Nat) : (s.compact upTo applied).1.Retains log ∧
      (s.compact upTo applied).1.hardState = s.hardState ∧
      ((s.compact upTo applied).1.baseIndex = s.baseIndex ∨
        (s.compact upTo applied).1.baseIndex = upTo ∧ upTo ≤ s.hardState.commitIndex ∧ upTo ≤ applied) := by
  unfold FileStorage.compact
  split
  · exact ⟨held,rfl,.inl rfl⟩
  rename_i plan planned
  split
  · exact ⟨held,rfl,.inl rfl⟩
  rename_i some
  obtain ⟨further,within,committed,done,found⟩ := planCompaction_compacted planned (by simpa using some)
  rw [held.lastIndex] at within
  refine ⟨⟨held.numbered,within,?_,?_⟩,rfl,.inr ⟨rfl,committed,done⟩⟩
  · rw [held.entries]
    exact filter_after held.numbered further.le
  · rw [← held.termAt further.le,found]

end FileStorage

end AuraDb.Raft
