import AuraDb.Raft.CrashSafety

/-! The file-backed log beside one that is never compacted. A snapshot agrees with the full log, or replaces it
by the log the snapshot stands for. -/
namespace AuraDb.Raft
open Library

theorem sorted_of_valid {lastIndex lastTerm : Nat} {entries : List LogEntry}
    (valid : validateSuffix lastIndex lastTerm entries = .ok ()) :
    (lastTerm::entries.map LogEntry.term).Pairwise (· ≤ ·) := by
  induction entries generalizing lastIndex lastTerm with
  | nil => exact List.pairwise_singleton _ _
  | cons e rest ih =>
    obtain ⟨_,later,others⟩ := validateSuffix_cons.mp valid
    have sorted := ih others
    refine List.pairwise_cons.mpr ⟨?_,sorted⟩
    intro term inside
    rcases List.mem_cons.mp inside with rfl | further
    · exact later
    · exact later.trans ((List.pairwise_cons.mp sorted).1 term further)

structure Covers (covered : List LogEntry) (lastIncludedIndex lastIncludedTerm : Nat) : Prop where
  valid : validateSuffix 0 0 covered = .ok ()
  length : covered.length = lastIncludedIndex
  term : termOf covered lastIncludedIndex = some lastIncludedTerm

structure Logs where
  store : FileStorage := {}
  full : MemStorage := {}

/-- A call of the store; a snapshot install comes with the log the snapshot stands for. -/
structure LogCall where
  op : FileOp
  covered : List LogEntry := []

namespace Logs

def accepts (s : FileStorage) : FileOp → Bool
  | .append entries => (s.append entries).2.isOk
  | .truncateFrom index => (s.truncateFrom index).2.isOk
  | .compact upTo applied => (s.compact upTo applied).2.isOk
  | .installSnapshot _ _ | .saveHardState _ => true

def fullStep (l : Logs) (covered : List LogEntry) : FileOp → MemStorage
  | .append entries => (l.full.append entries).1
  | .truncateFrom index => (l.full.truncateFrom index).1
  | .compact _ _ => l.full
  | .installSnapshot lastIncludedIndex lastIncludedTerm =>
    if lastIncludedIndex ≤ l.store.baseIndex ∨ l.full.termAt lastIncludedIndex = some lastIncludedTerm then l.full
    else { l.full with entries := covered }
  | .saveHardState hs => { l.full with hardState := hs }

def step (l : Logs) (call : LogCall) : Option (Logs × List Empty) :=
  if accepts l.store call.op then some (⟨call.op.run l.store,l.fullStep call.covered call.op⟩,[]) else none

def Admitted (_ : Logs) (call : LogCall) : Prop :=
  match call.op with
  | .truncateFrom index => 1 ≤ index
  | .installSnapshot lastIncludedIndex lastIncludedTerm => Covers call.covered lastIncludedIndex lastIncludedTerm
  | _ => True

structure Refines (l : Logs) : Prop where
  retains : l.store.Retains l.full.entries
  valid : validateSuffix 0 0 l.full.entries = .ok ()

variable {l : Logs} {log : List LogEntry}

theorem numbered_of_valid (valid : validateSuffix 0 0 log = .ok ()) : Numbered log := by
  intro i e found
  rw [index_of_valid valid found]
  omega

section
variable (refines : Refines l)
include refines

theorem Refines.lastTerm : l.store.lastTerm = l.full.lastTerm := refines.retains.lastTerm

theorem Refines.lastIndex : l.store.lastIndex = l.full.lastIndex := refines.retains.lastIndex

theorem Refines.append_result (entries : List LogEntry) : (l.store.append entries).2 = (l.full.append entries).2 := by
  unfold FileStorage.append MemStorage.append
  rw [refines.lastIndex,refines.lastTerm]
  cases validateSuffix l.full.lastIndex l.full.lastTerm entries <;> rfl

theorem Refines.append {entries : List LogEntry} (taken : (l.store.append entries).2.isOk = true) :
    Refines ⟨(l.store.append entries).1,(l.full.append entries).1⟩ := by
  have held := refines.retains
  cases valid : validateSuffix l.full.lastIndex l.full.lastTerm entries with
  | error e =>
    rw [refines.append_result,MemStorage.append,valid] at taken
    cases taken
  | ok _ =>
    have stored : (l.store.append entries).1 = { l.store with entries := l.store.entries ++ entries } := by
      rw [FileStorage.append,refines.lastIndex,refines.lastTerm,valid]
    have full : (l.full.append entries).1 = { l.full with entries := l.full.entries ++ entries } := by
      rw [MemStorage.append,valid]
    have longer : validateSuffix 0 0 (l.full.entries ++ entries) = .ok () := by
      refine validateSuffix_append.mpr ⟨refines.valid,?_⟩
      rw [Nat.zero_add]
      exact valid
    rw [stored,full]
    refine ⟨⟨numbered_of_valid longer,?_,?_,?_⟩,longer⟩
    · exact held.base_le.trans (List.length_append ▸ Nat.le_add_right _ _)
    · rw [held.entries,List.drop_append_of_le_length held.base_le]
    · exact (termOf_shorter (List.prefix_append _ entries) held.base_le).symm.trans held.baseTerm

end

theorem valid_take (valid : validateSuffix 0 0 log = .ok ()) (k : Nat) :
    validateSuffix 0 0 (log.take k) = .ok () := by
  rw [← List.take_append_drop k log] at valid
  exact (validateSuffix_append.mp valid).1

theorem Refines.truncate (refines : Refines l) {index : Nat} (positive : 1 ≤ index)
    (taken : (l.store.truncateFrom index).2.isOk = true) :
    Refines ⟨(l.store.truncateFrom index).1,(l.full.truncateFrom index).1⟩ := by
  rw [FileStorage.truncateFrom] at taken ⊢
  split
  · rename_i covered
    rw [if_pos covered] at taken
    cases taken
  · exact ⟨refines.retains.truncate (by omega),valid_take refines.valid _⟩

theorem Refines.install (refines : Refines l) {covered : List LogEntry} {b t : Nat} (covers : Covers covered b t) :
    Refines ⟨(FileOp.installSnapshot b t).run l.store,l.fullStep covered (.installSnapshot b t)⟩ := by
  have held := refines.retains
  simp only [FileOp.run,fullStep,FileStorage.installSnapshot]
  by_cases old : b ≤ l.store.baseIndex
  · rw [if_pos old,if_pos (.inl old)]
    exact refines
  have agrees : l.store.termAt b = l.full.termAt b := held.termAt (by omega)
  rw [if_neg old,FileStorage.afterSnapshot,agrees]
  by_cases same : l.full.termAt b = some t
  · rw [if_pos same,if_pos (.inr same)]
    have within : b ≤ l.full.entries.length := by
      unfold MemStorage.termAt at same
      rw [if_neg (by omega)] at same
      obtain ⟨e,found,_⟩ := Option.map_eq_some_iff.mp same
      have bound := (List.getElem?_eq_some_iff.mp found).1
      omega
    refine ⟨⟨held.numbered,within,?_,same⟩,refines.valid⟩
    rw [held.entries]
    exact FileStorage.filter_after held.numbered (by omega)
  · rw [if_neg same,if_neg (not_or.mpr ⟨old,same⟩)]
    refine ⟨⟨numbered_of_valid covers.valid,covers.length.ge,?_,covers.term⟩,covers.valid⟩
    exact (List.drop_eq_nil_of_le covers.length.le).symm

theorem Refines.step {u : Logs} {shown : List Empty} {call : LogCall} (refines : Refines l)
    (allowed : Admitted l call) (taken : l.step call = some (u,shown)) : Refines u := by
  obtain ⟨op,covered⟩ := call
  unfold Logs.step at taken
  split at taken
  · rename_i accepted
    obtain rfl := (Prod.mk.inj (Option.some.inj taken)).1
    cases op with
    | append entries => exact refines.append accepted
    | truncateFrom index => exact refines.truncate allowed accepted
    | compact upTo applied => exact ⟨(refines.retains.compact upTo applied).1,refines.valid⟩
    | installSnapshot b t => exact refines.install allowed
    | saveHardState hs =>
      exact ⟨{ refines.retains with },refines.valid⟩
  · cases taken

theorem endTerm_boundary {base baseTerm : Nat} (boundary : termOf log base = some baseTerm) :
    endTerm 0 (log.take base) = baseTerm := by
  cases base with
  | zero => exact Option.some.inj boundary
  | succ k =>
    obtain ⟨e,found,same⟩ := Option.map_eq_some_iff.mp boundary
    rw [Nat.add_sub_cancel] at found
    rw [endTerm_take found,same]

theorem Refines.suffix (refines : Refines l) :
    validateSuffix l.store.baseIndex l.store.baseTerm l.store.entries = .ok () := by
  have held := refines.retains
  have whole := refines.valid
  rw [← List.take_append_drop l.store.baseIndex l.full.entries] at whole
  have rest := (validateSuffix_append.mp whole).2
  rwa [Nat.zero_add,List.length_take,Nat.min_eq_left held.base_le,endTerm_boundary held.baseTerm,← held.entries] at rest

theorem Refines.entriesFrom (refines : Refines l) {i : Nat} (above : l.store.baseIndex < i) :
    l.store.entriesFrom i = l.full.entriesFrom i := by
  have rest := LawfulRaftStorage.entriesFrom_eq (s := l.store) (i := i) refines.retains
  change l.store.entriesFrom i = l.full.entries.drop (max (i - 1) l.store.baseIndex) at rest
  rw [rest,MemStorage.entriesFrom,Nat.max_eq_left (by omega)]

theorem Refines.entryAt (refines : Refines l) {i : Nat} (above : l.store.baseIndex < i) :
    l.store.entryAt i = l.full.entryAt i := by
  rw [FileStorage.entryAt,refines.retains.slot above,MemStorage.entryAt,if_neg (by omega)]

end Logs

open Logs in
/-- After any calls that succeeded: what the store retains follows the boundary, above it it answers as the full
log does, it takes the same entries, and it compacts only what is committed and applied. -/
theorem compacted_log_refines {l : Logs} {shown : List Empty} (run : Run Logs.step Logs.Admitted {} shown l) :
    (∀ i e, l.store.entries[i]? = some e → e.index = l.store.baseIndex + i + 1) ∧
      (l.store.baseTerm::l.store.entries.map LogEntry.term).Pairwise (· ≤ ·) ∧
      l.store.lastIndex = l.full.lastIndex ∧ l.store.lastTerm = l.full.lastTerm ∧
      (∀ i, l.store.baseIndex < i → l.store.termAt i = l.full.termAt i ∧ l.store.entryAt i = l.full.entryAt i ∧
        l.store.entriesFrom i = l.full.entriesFrom i) ∧
      l.store.termAt l.store.baseIndex = some l.store.baseTerm ∧
      l.full.termAt l.store.baseIndex = some l.store.baseTerm ∧
      (∀ entries, (l.store.append entries).2 = (l.full.append entries).2) ∧
      (∀ upTo applied, (l.store.compact upTo applied).1.baseIndex = l.store.baseIndex ∨
        (l.store.compact upTo applied).1.baseIndex = upTo ∧ upTo ≤ l.store.hardState.commitIndex ∧ upTo ≤ applied) ∧
      ∀ applied, l.store.compactablePrefix applied ≤ max l.store.baseIndex (min applied l.store.hardState.commitIndex) := by
  have refines : Refines l := by
    apply run.invariant (fun _ t => Refines t)
    · exact ⟨⟨numbered_of_valid rfl,Nat.le_refl 0,rfl,rfl⟩,rfl⟩
    · intro _ t call u _ kept allowed taken
      exact kept.step allowed taken
  have held := refines.retains
  have boundary : l.store.termAt l.store.baseIndex = some l.store.baseTerm :=
    (held.termAt (Nat.le_refl _)).trans held.baseTerm
  refine ⟨fun i e => index_of_valid refines.suffix,sorted_of_valid refines.suffix,refines.lastIndex,refines.lastTerm,
    ?_,boundary,held.baseTerm,refines.append_result,?_,?_⟩
  · intro i above
    exact ⟨held.termAt above.le,refines.entryAt above,refines.entriesFrom above⟩
  · intro upTo applied
    exact (held.compact upTo applied).2.2
  · intro applied
    simp only [FileStorage.compactablePrefix]
    omega

namespace Logs

instance (l : Logs) (call : LogCall) : Decidable (Admitted l call) := by
  have covers (covered : List LogEntry) (b t : Nat) : Decidable (Covers covered b t) :=
    decidable_of_iff (validateSuffix 0 0 covered = .ok () ∧ covered.length = b ∧ termOf covered b = some t)
      ⟨fun ⟨valid,length,term⟩ => ⟨valid,length,term⟩,fun ⟨valid,length,term⟩ => ⟨valid,length,term⟩⟩
  unfold Admitted
  split <;> infer_instance

def entry (term index : Nat) : LogEntry := ⟨term,index,.noop⟩

def boundaryCalls : List LogCall :=
  [⟨.append [entry 1 1,entry 1 2,entry 2 3],[]⟩,⟨.saveHardState ⟨2,none,2⟩,[]⟩,⟨.compact 2 2,[]⟩,⟨.truncateFrom 3,[]⟩,
    ⟨.append [entry 3 3,entry 3 4],[]⟩,⟨.installSnapshot 3 3,[entry 1 1,entry 1 2,entry 3 3]⟩,
    ⟨.installSnapshot 5 4,[entry 1 1,entry 1 2,entry 3 3,entry 3 4,entry 4 5]⟩,⟨.append [entry 4 6],[]⟩]

end Logs

theorem compacted_log_refines_boundary :
    ∃ l shown, Run Logs.step Logs.Admitted {} shown l ∧ l.store.baseIndex = 5 ∧ l.store.entries.length = 1 ∧
      l.full.entries.length = 6 ∧ l.store.entriesFrom 6 = l.full.entriesFrom 6 := by
  obtain ⟨l,shown,run,base,kept,whole⟩ := @Run.exists_of_admitted _ _ _ Logs.step Logs.Admitted _ Logs.boundaryCalls {}
    (fun l _ => l.store.baseIndex = 5 ∧ l.store.entries.length = 1 ∧ l.full.entries.length = 6) (by decide +kernel)
  obtain ⟨_,_,_,_,answers,_⟩ := compacted_log_refines run
  exact ⟨l,shown,run,base,kept,whole,(answers 6 (by omega)).2.2⟩

end AuraDb.Raft
