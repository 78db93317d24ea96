import AuraDb.Library.Slices
import AuraDb.Storage.Log

/-! The scan of a segment with the checks its reads make: on no buffer does it stop the program or run on. A cut
through a segment costs the batches that are not all there and no others. -/
namespace AuraDb
open Library Library.Framing Library.Slices

inductive Round where
  | ended (truncated : Bool)
  | fault (fault : Fault)
  | batch (batch : Batch) (next : Nat)

def parseRound (codec : Codec Batch) (buf : Bytes) (offset : Nat) : Checked Round :=
  if offset = buf.length then pure (.ended false) else do
  let headerEnd ← add offset 12
  if buf.length < headerEnd then pure (.ended true) else do
  let lenEnd ← add offset 8
  let lenBytes ← slice buf offset lenEnd
  let len ← word 8 lenBytes
  let crcBytes ← slice buf lenEnd headerEnd
  let crc ← word 4 crcBytes
  let bodyStart ← add offset 12
  match checkedAdd bodyStart len with
  | none => pure (.fault .lengthOverflow)
  | some bodyEnd =>
    if buf.length < bodyEnd then pure (.ended true) else do
    let payload ← slice buf bodyStart bodyEnd
    if (codec.crc payload).toNat ≠ crc then pure (.fault (.checksum offset)) else
    match codec.read payload with
    | .error reason => pure (.fault (.malformed offset reason))
    | .ok batch => pure (.batch batch bodyEnd)

def parseRounds (codec : Codec Batch) (buf : Bytes) :
    Nat → Nat → List Batch → Option (Checked (Result (Parsed Batch)))
  | 0, _, _ => none
  | rounds+1, offset, batches =>
    match parseRound codec buf offset with
    | .error panic => some (.error panic)
    | .ok (.ended truncated) => some (.ok (.ok ⟨batches,offset,truncated⟩))
    | .ok (.fault fault) => some (.ok (.error (faultError fault)))
    | .ok (.batch batch next) => parseRounds codec buf rounds next (batches ++ [batch])

def roundOf (offset : Nat) : Except Fault (Option (Batch × Nat)) → Round
  | .error fault => .fault fault
  | .ok none => .ended true
  | .ok (some (batch,size)) => .batch batch (offset+size)

variable (codec : Codec Batch) (buf : Buffer) (batches : List Batch)

theorem parseRound_end (buf : Bytes) : parseRound codec buf buf.length = .ok (.ended false) := if_pos rfl

theorem parseRound_frame (offset : Nat) (inside : offset < buf.bytes.length) :
    parseRound codec buf.bytes offset = .ok (roundOf offset (codec.frameAt offset (buf.bytes.drop offset))) := by
  have machine := buf.machine
  have width (n : Nat) : offset + n - offset = n := by omega
  have gap : offset + 12 - (offset + 8) = 4 := by omega
  unfold parseRound Codec.frameAt
  rw [if_neg (by omega),add_ok (by omega : offset + 12 < 2^64),add_ok (by omega : offset + 8 < 2^64)]
  simp only [List.length_drop,List.drop_drop,ok_bind]
  by_cases header : buf.bytes.length < offset + 12
  · rw [if_pos header,if_pos (by omega)]
    rfl
  rw [if_neg header,if_neg (by omega),slice_ok (by omega) (by omega),slice_ok (by omega) (by omega)]
  simp only [width,gap,ok_bind]
  rw [word_slice_ok (by omega),word_slice_ok (by omega)]
  simp only [ok_bind,checkedAdd]
  generalize beNat (List.take 8 (List.drop offset buf.bytes)) = len
  generalize beNat (List.take 4 (List.drop (offset+8) buf.bytes)) = crc
  by_cases overflow : 2^64 ≤ offset + 12 + len
  · rw [if_neg (by omega),if_pos overflow]
    rfl
  rw [if_pos (by omega),if_neg overflow]
  by_cases torn : buf.bytes.length < offset + 12 + len
  · rw [if_pos (by omega)]
    simp only [if_pos torn]
    rfl
  rw [if_neg (by omega)]
  simp only [if_neg torn]
  rw [slice_ok (by omega) (by omega)]
  have body : offset + 12 + len - (offset + 12) = len := by omega
  simp only [body,ok_bind]
  by_cases bad : (codec.crc (List.take len (List.drop (offset+12) buf.bytes))).toNat ≠ crc
  · rw [if_pos bad,if_pos bad]
    rfl
  rw [if_neg bad,if_neg bad]
  cases codec.read (List.take len (List.drop (offset+12) buf.bytes)) with
  | error reason => rfl
  | ok batch => simp only [roundOf,Nat.add_assoc]; rfl

def segmentResult (batches : List Batch) : Except Fault (Parsed Batch) → Result (Parsed Batch)
  | .error fault => .error (faultError fault)
  | .ok parsed => .ok { parsed with items := batches ++ parsed.items }

theorem parseSegment_eq (buf : Bytes) : parseSegment codec buf = segmentResult [] (codec.parse buf) := by
  unfold parseSegment
  cases codec.parse buf <;> rfl

theorem parseRounds_eq (m rounds offset : Nat) (batches : List Batch)
    (inside : offset ≤ buf.bytes.length) (enough : buf.bytes.length - offset ≤ m)
    (more : buf.bytes.length - offset < rounds) : parseRounds codec buf.bytes rounds offset batches =
      some (.ok (segmentResult batches (codec.parseLoop m offset (buf.bytes.drop offset)))) := by
  induction m generalizing rounds offset batches with
  | zero =>
    obtain rfl : offset = buf.bytes.length := by omega
    obtain ⟨rounds,rfl⟩ : ∃ n, rounds = n + 1 := ⟨rounds-1,by omega⟩
    simp [parseRounds,parseRound_end,Codec.parseLoop,segmentResult]
  | succ m ih =>
    obtain ⟨rounds,rfl⟩ : ∃ n, rounds = n + 1 := ⟨rounds-1,by omega⟩
    rcases Nat.eq_or_lt_of_le inside with rfl | before
    · simp [parseRounds,parseRound_end,Codec.parseLoop,segmentResult]
    · have nonempty : (buf.bytes.drop offset).isEmpty = false := by
        rw [List.isEmpty_eq_false_iff,Ne,← List.length_eq_zero_iff,List.length_drop]
        omega
      simp only [parseRounds,parseRound_frame codec buf offset before,Codec.parseLoop,nonempty,
        Bool.false_eq_true,if_false]
      cases head : codec.frameAt offset (buf.bytes.drop offset) with
      | error fault => simp [roundOf,segmentResult]
      | ok found =>
        cases found with
        | none => simp [roundOf,segmentResult]
        | some pair =>
          obtain ⟨batch,size⟩ := pair
          obtain ⟨header,short⟩ := Codec.frameAt_some head
          rw [List.length_drop] at short
          -- a frame is longer than its header, so both loops get on
          have next := ih rounds (offset+size) (batches ++ [batch]) (by omega) (by omega) (by omega)
          simp only [roundOf,next,List.drop_drop]
          cases codec.parseLoop m (offset+size) (buf.bytes.drop (offset+size)) with
          | error fault => rfl
          | ok parsed => simp [segmentResult]

theorem parseRounds_parseSegment (rounds : Nat) (enough : buf.bytes.length < rounds) :
    parseRounds codec buf.bytes rounds 0 [] = some (.ok (parseSegment codec buf.bytes)) := by
  rw [parseRounds_eq codec buf buf.bytes.length rounds 0 [] (Nat.zero_le _) (Nat.le_refl _) (by omega),
    parseSegment_eq,List.drop_zero,Codec.parse]

structure Encodes (codec : Codec Batch) (b : Batch) : Prop where
  roundTrip : codec.read (codec.write b) = .ok b
  machine : (codec.frame b).length < 2^63

theorem Encodes.stores {codec : Codec Batch} {b : Batch} (encodes : Encodes codec b) : codec.Stores b where
  roundTrip := encodes.roundTrip
  short := by
    have machine := encodes.machine
    rw [Codec.length_frame] at machine
    omega

theorem parseSegment_cut (encodes : ∀ b ∈ batches, Encodes codec b)
    (buf : Buffer) (cut : buf.bytes <+: codec.frames batches) :
    parseSegment codec buf.bytes = .ok ⟨codec.contained batches buf.bytes.length,
      (codec.frames (codec.contained batches buf.bytes.length)).length,
      decide ((codec.frames (codec.contained batches buf.bytes.length)).length ≠ buf.bytes.length)⟩ := by
  have machine := buf.machine
  have scanned := Codec.parseLoop_take_frames batches (fun b inside => (encodes b inside).stores)
    buf.bytes.length 0 buf.bytes.length cut.length_le (fun b inside => by
      have := (encodes b inside).machine
      omega) (Nat.le_refl _)
  rw [← List.prefix_iff_eq_take.mp cut,Nat.zero_add] at scanned
  rw [parseSegment_eq,Codec.parse,scanned]
  rfl

theorem frames_take_le {j k : Nat} (below : j ≤ k) :
    (codec.frames (batches.take j)).length ≤ (codec.frames (batches.take k)).length := by
  obtain ⟨rest,same⟩ := List.take_prefix j (batches.take k)
  rw [List.take_take,Nat.min_eq_left below] at same
  rw [← same,Codec.frames_append,List.length_append]
  omega

/-- A scan of the first bytes of some batches gives the batches that are all there and whether bytes are left
over. On every buffer it ends, with no check failing. -/
theorem torn_tail_recovery (codec : Codec Batch) :
    (∀ batches : List Batch, (∀ b ∈ batches, Encodes codec b) → ∀ buf : Buffer, buf.bytes <+: codec.frames batches →
      ∃ k ≤ batches.length, (codec.frames (batches.take k)).length ≤ buf.bytes.length ∧
        (∀ j ≤ batches.length, (codec.frames (batches.take j)).length ≤ buf.bytes.length → j ≤ k) ∧
        ∃ truncated, (truncated = true ↔
            ∀ j ≤ batches.length, (codec.frames (batches.take j)).length ≠ buf.bytes.length) ∧
          ∀ rounds, buf.bytes.length < rounds → parseRounds codec buf.bytes rounds 0 [] =
            some (.ok (.ok ⟨batches.take k,(codec.frames (batches.take k)).length,truncated⟩))) ∧
    ∀ (buf : Buffer) (rounds : Nat), buf.bytes.length < rounds →
      parseRounds codec buf.bytes rounds 0 [] = some (.ok (parseSegment codec buf.bytes)) := by
  refine ⟨?_,parseRounds_parseSegment codec⟩
  intro batches encodes buf cut
  obtain ⟨k,inside,same,fits,greatest⟩ := @Codec.contained_greatest _ codec batches buf.bytes.length
  have scanned := parseSegment_cut codec batches encodes buf cut
  rw [same] at scanned
  refine ⟨k,inside,fits,greatest,decide ((codec.frames (batches.take k)).length ≠ buf.bytes.length),?_,?_⟩
  · rw [decide_eq_true_iff]
    constructor
    · intro left j short ends
      have upper := frames_take_le codec batches (greatest j short (Nat.le_of_eq ends))
      omega
    · intro never
      exact never k inside
  · intro rounds enough
    rw [parseRounds_parseSegment codec buf rounds enough,scanned]

def numberCodec : Codec Batch where
  write b := [UInt8.ofNat b.txnId]
  read
    | [n] => .ok ⟨n.toNat,[]⟩
    | _ => .error "expected one byte"
  crc bytes := UInt32.ofNat bytes.length

def twoBatches : List Batch := [⟨1,[]⟩,⟨2,[]⟩]

theorem twoBatches_encode : ∀ b ∈ twoBatches, Encodes numberCodec b := by
  intro b inside
  rcases List.mem_pair.mp inside with rfl | rfl
  · exact ⟨rfl,by decide⟩
  · exact ⟨rfl,by decide⟩

def cutBuffer : Buffer := ⟨(numberCodec.frames twoBatches).take 24,by decide⟩

theorem torn_tail_recovery_two : ∃ k truncated,
    (truncated = true ↔ ∀ j ≤ 2, (numberCodec.frames (twoBatches.take j)).length ≠ 24) ∧
      parseRounds numberCodec cutBuffer.bytes 25 0 [] =
        some (.ok (.ok ⟨twoBatches.take k,(numberCodec.frames (twoBatches.take k)).length,truncated⟩)) := by
  obtain ⟨k,_,_,_,truncated,boundary,scanned⟩ := (torn_tail_recovery numberCodec).1 twoBatches
    twoBatches_encode cutBuffer (List.take_prefix _ _)
  exact ⟨k,truncated,boundary,scanned 25 (by decide)⟩

end AuraDb
