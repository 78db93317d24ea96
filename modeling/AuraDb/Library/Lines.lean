import AuraDb.Library.Framing

/-! Reading a file line by line through a buffer: a line is gathered across chunks up to a cap, so what is read
does not depend on where the chunks are cut. -/
namespace AuraDb.Library.Lines
open Framing

def newline : UInt8 := 10

inductive Read where
  | ended
  | line (bytes : Bytes) (left : List Bytes)
  | tooLong

/-- Gather one line into the buffer. The chunks are those the reader has still to hand out. -/
def readCapped (cap : Nat) : List Bytes → Bytes → Read
  | [], buf => if buf.isEmpty then .ended else .line buf []
  | available::rest, buf =>
    match available.findIdx? (· == newline) with
    | some pos =>
      if cap < buf.length + pos then .tooLong
      else .line (buf ++ available.take pos)
        (if (available.drop (pos + 1)).isEmpty then rest else available.drop (pos + 1)::rest)
    | none => if cap < buf.length + available.length then .tooLong else readCapped cap rest (buf ++ available)

theorem readCapped_shorter {cap : Nat} {chunks left : List Bytes} {buf bytes : Bytes}
    (read : readCapped cap chunks buf = .line bytes left) :
    left.flatten.length < chunks.flatten.length + buf.length := by
  induction chunks generalizing buf with
  | nil =>
    unfold readCapped at read
    split at read
    · cases read
    · rename_i some
      cases read
      simpa [List.length_pos_iff] using some
  | cons available rest ih =>
    unfold readCapped at read
    rw [List.flatten_cons,List.length_append]
    split at read
    · rename_i pos found
      have inside := (List.findIdx?_eq_some_iff_getElem.mp found).1
      split at read
      · cases read
      cases read
      split
      · omega
      · simp only [List.flatten_cons,List.length_append,List.length_drop]
        omega
    · split at read
      · cases read
      · have shorter := ih read
        rw [List.length_append] at shorter
        omega

structure Chunks (bytes : Bytes) (chunks : List Bytes) : Prop where
  whole : chunks.flatten = bytes
  nonempty : ∀ chunk ∈ chunks, chunk ≠ []

def ended (line : Bytes) : Bytes := line ++ [newline]

theorem findIdx_unbroken {line : Bytes} (unbroken : newline ∉ line) : line.findIdx? (· == newline) = none := by
  rw [List.findIdx?_eq_none_iff]
  intro b inside
  have other : b ≠ newline := fun same => unbroken (same ▸ inside)
  simpa using other

theorem findIdx_newline {line rest : Bytes} (unbroken : newline ∉ line) :
    (line ++ newline::rest).findIdx? (· == newline) = some line.length := by
  rw [List.findIdx?_append,findIdx_unbroken unbroken,List.findIdx?_cons,if_pos (by simp)]
  simp

theorem chunk_cases {available left line later : Bytes} (whole : available ++ left = line ++ newline::later) :
    (∃ tail, line = available ++ tail ∧ left = tail ++ newline::later) ∨
      ∃ tail, available = line ++ newline::tail ∧ later = tail ++ left := by
  rcases List.append_eq_append_iff.mp whole with ⟨tail,rfl,more⟩ | ⟨tail,rfl,more⟩
  · exact .inl ⟨tail,rfl,more⟩
  · cases tail with
    | nil => exact .inl ⟨[],by simp,more.symm⟩
    | cons first tail =>
      obtain ⟨rfl,rfl⟩ := List.cons.inj more
      exact .inr ⟨tail,rfl,rfl⟩

theorem readCapped_line {cap : Nat} {line later : Bytes} (unbroken : newline ∉ line) {chunks : List Bytes}
    (cut : Chunks (ended line ++ later) chunks) {buf : Bytes} (short : buf.length + line.length ≤ cap) :
    ∃ left, readCapped cap chunks buf = .line (buf ++ line) left ∧ Chunks later left := by
  induction chunks generalizing line buf with
  | nil => exact absurd cut.whole (by simp [ended])
  | cons available rest ih =>
    have whole : available ++ rest.flatten = line ++ newline::later := by
      have whole := cut.whole
      rwa [List.flatten_cons,ended,List.append_assoc] at whole
    have others : ∀ chunk ∈ rest, chunk ≠ [] := fun chunk inside => cut.nonempty chunk (List.mem_cons_of_mem _ inside)
    rcases chunk_cases whole with ⟨tail,rfl,more⟩ | ⟨tail,rfl,rfl⟩
    · have searched := findIdx_unbroken (fun inside => unbroken (List.mem_append_left tail inside))
      rw [List.length_append] at short
      obtain ⟨left,read,cut'⟩ := @ih tail (fun inside => unbroken (List.mem_append_right _ inside))
        ⟨by rw [more,ended,List.append_assoc]; rfl,others⟩ (buf ++ available) (by rw [List.length_append]; omega)
      refine ⟨left,?_,cut'⟩
      rw [readCapped,searched]
      simp only [if_neg (show ¬cap < buf.length + available.length by omega)]
      rw [read,List.append_assoc]
    · refine ⟨if tail.isEmpty then rest else tail::rest,?_,?_⟩
      · rw [readCapped,findIdx_newline unbroken]
        have dropped : (line ++ newline::tail).drop (line.length + 1) = tail := by simp
        simp only [if_neg (Nat.not_lt.mpr short),dropped,List.take_left]
      · cases tail with
        | nil => exact ⟨by simp,others⟩
        | cons b tail => exact ⟨by simp,by simpa using others⟩

end AuraDb.Library.Lines
