import Mathlib.Data.List.Basic
import Mathlib.Tactic.SplitIfs
import Mathlib.Tactic.Ring

/-! A log of frames: each item is written as its length, a checksum and its payload. A scan stops at the end, at
a frame that is not all there, or at one that does not check. -/
namespace AuraDb.Library.Framing

abbrev Bytes := List UInt8

def beBytes : Nat → Nat → Bytes
  | 0, _ => []
  | width+1, n => beBytes width (n/256) ++ [UInt8.ofNat n]

def beNat (bytes : Bytes) : Nat := bytes.foldl (fun n b => n*256 + b.toNat) 0

@[simp] theorem length_beBytes (width n : Nat) : (beBytes width n).length = width := by
  induction width generalizing n with
  | zero => rfl
  | succ width ih => simp [beBytes,ih]

theorem beNat_beBytes (width n : Nat) (fits : n < 256^width) : beNat (beBytes width n) = n := by
  induction width generalizing n with
  | zero =>
    have zero : n = 0 := by simpa using fits
    simp [beBytes,beNat,zero]
  | succ width ih =>
    have high : n/256 < 256^width := by
      rw [Nat.div_lt_iff_lt_mul (by decide)]
      rwa [pow_succ] at fits
    have step : beNat (beBytes (width+1) n) = beNat (beBytes width (n/256))*256 + n%256 := by
      simp [beBytes,beNat,List.foldl_append,UInt8.toNat_ofNat']
    rw [step,ih _ high]
    omega

theorem beNat_lt (bytes : Bytes) : beNat bytes < 256^bytes.length := by
  have bound (n : Nat) : bytes.foldl (fun n b => n*256 + b.toNat) n < (n+1) * 256^bytes.length := by
    induction bytes generalizing n with
    | nil => simp
    | cons b rest ih =>
      have byte := b.toNat_lt
      refine Nat.lt_of_lt_of_le (ih (n*256 + b.toNat)) ?_
      rw [List.length_cons,pow_succ,← Nat.mul_assoc,Nat.mul_right_comm]
      exact Nat.mul_le_mul_right _ (by omega)
  simpa [beNat] using bound 0

/-- The functions a frame is made with. They carry no law. -/
structure Codec (α : Type) where
  write : α → Bytes
  read : Bytes → Except String α
  crc : Bytes → UInt32

inductive Fault where
  | lengthOverflow
  | checksum (offset : Nat)
  | malformed (offset : Nat) (reason : String)
  deriving DecidableEq, Repr

structure Parsed (α : Type) where
  items : List α
  validLen : Nat
  truncated : Bool

namespace Codec
variable {α : Type} (codec : Codec α)

def frame (a : α) : Bytes :=
  beBytes 8 (codec.write a).length ++ beBytes 4 (codec.crc (codec.write a)).toNat ++ codec.write a

structure Stores (a : α) : Prop where
  roundTrip : codec.read (codec.write a) = .ok a
  short : (codec.write a).length < 2^64

instance [DecidableEq α] (a : α) : Decidable (codec.Stores a) :=
  decidable_of_iff (codec.read (codec.write a) = .ok a ∧ (codec.write a).length < 2^64)
    ⟨fun ⟨roundTrip,short⟩ => ⟨roundTrip,short⟩,fun ⟨roundTrip,short⟩ => ⟨roundTrip,short⟩⟩

def frameAt (offset : Nat) (rest : Bytes) : Except Fault (Option (α × Nat)) :=
  if rest.length < 12 then .ok none else
  let len := beNat (rest.take 8)
  let sum := beNat ((rest.drop 8).take 4)
  if 2^64 ≤ offset + 12 + len then .error .lengthOverflow else
  if rest.length < 12 + len then .ok none else
  let payload := (rest.drop 12).take len
  if (codec.crc payload).toNat ≠ sum then .error (.checksum offset) else
  match codec.read payload with
  | .error reason => .error (.malformed offset reason)
  | .ok a => .ok (some (a,12 + len))

/-- Every frame is longer than one byte, so as many rounds as there are bytes are enough. -/
def parseLoop : Nat → Nat → Bytes → Except Fault (Parsed α)
  | 0, offset, _ => .ok ⟨[],offset,false⟩
  | rounds+1, offset, rest =>
    if rest.isEmpty then .ok ⟨[],offset,false⟩ else
    match codec.frameAt offset rest with
    | .error fault => .error fault
    | .ok none => .ok ⟨[],offset,true⟩
    | .ok (some (a,size)) =>
      match parseLoop rounds (offset+size) (rest.drop size) with
      | .error fault => .error fault
      | .ok parsed => .ok { parsed with items := a::parsed.items }

def parse (buf : Bytes) : Except Fault (Parsed α) := codec.parseLoop buf.length 0 buf

inductive Frames : Nat → Bytes → List α → Prop where
  | done (offset : Nat) : Frames offset [] []
  | frame (offset : Nat) (rest : Bytes) (a : α) (size : Nat) (items : List α)
      (head : codec.frameAt offset rest = .ok (some (a,size)))
      (tail : Frames (offset+size) (rest.drop size) items) : Frames offset rest (a::items)

variable {codec}

theorem length_frame (a : α) : (codec.frame a).length = 12 + (codec.write a).length := by
  simp only [frame,List.length_append,length_beBytes]

variable {offset size : Nat} {buf rest : Bytes} {items : List α}
section
variable {a : α} (head : codec.frameAt offset rest = .ok (some (a,size)))
include head

theorem frameAt_some : 12 ≤ size ∧ size ≤ rest.length := by
  unfold frameAt at head
  simp only at head
  split_ifs at head with short overflow torn bad
  · simp at head
  · simp at head
  · cases read : codec.read ((rest.drop 12).take (beNat (rest.take 8))) with
    | error reason => simp [read] at head
    | ok b =>
      simp only [read,Except.ok.injEq,Option.some.injEq,Prod.mk.injEq] at head
      omega

theorem frameAt_take {other : Bytes} (same : other.take size = rest.take size)
    (long : size ≤ other.length) : codec.frameAt offset other = .ok (some (a,size)) := by
  have prefixes (k : Nat) (below : k ≤ size) : other.take k = rest.take k := by
    have cut := congrArg (List.take k) same
    rwa [List.take_take,List.take_take,Nat.min_eq_left below] at cut
  have slices (j k : Nat) (below : j + k ≤ size) : (other.drop j).take k = (rest.drop j).take k := by
    have cut := congrArg (List.drop j) (prefixes (j+k) below)
    simpa [List.drop_take] using cut
  unfold frameAt at head ⊢
  simp only at head ⊢
  split_ifs at head with short overflow torn bad
  · simp at head
  · simp at head
  · have width : size = 12 + beNat (rest.take 8) := by
      cases read : codec.read ((rest.drop 12).take (beNat (rest.take 8))) with
      | error reason => simp [read] at head
      | ok b =>
        simp only [read,Except.ok.injEq,Option.some.injEq,Prod.mk.injEq] at head
        exact head.2.symm
    rw [prefixes 8 (by omega),slices 8 4 (by omega),slices 12 _ (by omega)]
    rw [if_neg (by omega),if_neg overflow,if_neg (by omega),if_neg bad]
    exact head

end

theorem header_frame (a : α) (stores : codec.Stores a) (rest : Bytes) :
    beNat ((codec.frame a ++ rest).take 8) = (codec.write a).length := by
  have first : (codec.frame a ++ rest).take 8 = beBytes 8 (codec.write a).length := by
    simp [frame,List.append_assoc]
  rw [first,beNat_beBytes 8 _ (by simpa using stores.short)]

section
variable (offset) (a) (stores : codec.Stores a)
include offset a stores

theorem frameAt_frame_append (rest : Bytes) : codec.frameAt offset (codec.frame a ++ rest) =
      if 2^64 ≤ offset + (codec.frame a).length then .error .lengthOverflow
      else .ok (some (a,(codec.frame a).length)) := by
  have size := @length_frame _ codec a
  have sum : beNat (((codec.frame a ++ rest).drop 8).take 4) = (codec.crc (codec.write a)).toNat := by
    have second : ((codec.frame a ++ rest).drop 8).take 4 = beBytes 4 (codec.crc (codec.write a)).toNat := by
      simp [frame,List.append_assoc]
    rw [second,beNat_beBytes 4 _ (codec.crc (codec.write a)).toNat_lt]
  have payload : ((codec.frame a ++ rest).drop 12).take (codec.write a).length = codec.write a := by
    have third : (codec.frame a ++ rest).drop 12 = codec.write a ++ rest := by
      simp [frame,List.append_assoc,List.drop_append]
    rw [third,List.take_left]
  simp only [frameAt,header_frame a stores,sum,payload,stores.roundTrip,size,List.length_append]
  rw [if_neg (by omega),Nat.add_assoc offset]
  split
  · rfl
  · rw [if_neg (by omega),if_neg (by simp)]

theorem frameAt_frame (fits : offset + (codec.frame a).length < 2^64) :
    codec.frameAt offset (codec.frame a) = .ok (some (a,(codec.frame a).length)) := by
  have whole := frameAt_frame_append offset a stores []
  rwa [List.append_nil,if_neg (Nat.not_le.mpr fits)] at whole

theorem frameAt_torn {count : Nat} (short : count < (codec.frame a).length) :
    codec.frameAt offset ((codec.frame a).take count) = .ok none ∨
      (codec.frameAt offset ((codec.frame a).take count) = .error .lengthOverflow ∧
        2^64 ≤ offset + (codec.frame a).length) := by
  have size := @length_frame _ codec a
  have length : ((codec.frame a).take count).length = count := List.length_take_of_le (Nat.le_of_lt short)
  unfold frameAt
  simp only [length]
  split
  · exact .inl rfl
  · rename_i header
    have len : beNat (((codec.frame a).take count).take 8) = (codec.write a).length := by
      have whole := header_frame a stores []
      rwa [List.append_nil,← Nat.min_eq_left (Nat.not_lt.mp header |>.trans' (by decide : 8 ≤ 12)),
        ← List.take_take] at whole
    split
    · exact .inr ⟨rfl,by omega⟩
    · exact .inl (if_pos (by omega))

end

def frames (codec : Codec α) (items : List α) : Bytes := (items.map codec.frame).flatten

theorem frames_append (first second : List α) :
    codec.frames (first ++ second) = codec.frames first ++ codec.frames second := by
  simp [frames]

theorem take_frames (items : List α) (count : Nat) : ∃ k torn,
    (codec.frames items).take count = codec.frames (items.take k) ++ torn ∧
      (torn = [] ∨ ∃ a ∈ items, ∃ m < (codec.frame a).length, torn = (codec.frame a).take m) := by
  induction items generalizing count with
  | nil => exact ⟨0,[],by simp [frames],.inl rfl⟩
  | cons a rest ih =>
    have split : codec.frames (a::rest) = codec.frame a ++ codec.frames rest := rfl
    rcases Nat.lt_or_ge count (codec.frame a).length with inside | past
    · refine ⟨0,(codec.frame a).take count,?_,.inr ⟨a,by simp,count,inside,rfl⟩⟩
      rw [split,List.take_append_of_le_length (Nat.le_of_lt inside)]
      rfl
    · obtain ⟨k,torn,same,part⟩ := ih (count - (codec.frame a).length)
      refine ⟨k + 1,torn,?_,?_⟩
      · rw [split,List.take_append,List.take_of_length_le past,same,List.take_succ_cons,← List.append_assoc]
        rfl
      · refine part.imp_right ?_
        rintro ⟨b,member,cut⟩
        exact ⟨b,List.mem_cons_of_mem _ member,cut⟩

theorem Frames.append (whole : codec.Frames offset rest items) (a : α) (stores : codec.Stores a)
    (fits : offset + rest.length + (codec.frame a).length < 2^64) :
    codec.Frames offset (rest ++ codec.frame a) (items ++ [a]) := by
  induction whole with
  | done offset =>
    refine .frame offset _ a (codec.frame a).length [] ?_ ?_
    · simpa using frameAt_frame offset a stores (by simpa using fits)
    · simpa using Frames.done _
  | frame offset rest b size items head tail ih =>
    obtain ⟨header,inside⟩ := frameAt_some head
    refine .frame offset _ b size (items ++ [a]) ?_ ?_
    · exact frameAt_take head (by rw [List.take_append_of_le_length inside]) (by simp; omega)
    · rw [List.drop_append_of_le_length inside]
      apply ih
      rw [List.length_drop]
      omega

theorem Frames.parseLoop (whole : codec.Frames offset rest items) (rounds : Nat) (enough : rest.length ≤ rounds) :
    codec.parseLoop rounds offset rest = .ok ⟨items,offset + rest.length,false⟩ := by
  induction whole generalizing rounds with
  | done offset => cases rounds <;> simp [Codec.parseLoop]
  | frame offset rest a size items head tail ih =>
    obtain ⟨header,inside⟩ := frameAt_some head
    cases rounds with
    | zero => omega
    | succ rounds =>
      have nonempty : rest.isEmpty = false := by
        cases rest with
        | nil => simp at inside; omega
        | cons b rest => rfl
      have next := ih rounds (by rw [List.length_drop]; omega)
      have ends : offset + size + (rest.drop size).length = offset + rest.length := by
        rw [List.length_drop]
        omega
      simp only [Codec.parseLoop,nonempty,Bool.false_eq_true,if_false,head,next,ends]

theorem frames_of_parseLoop {rounds : Nat} {parsed : Parsed α} (enough : rest.length ≤ rounds)
    (scanned : codec.parseLoop rounds offset rest = .ok parsed) :
    ∃ n ≤ rest.length, parsed.validLen = offset + n ∧ codec.Frames offset (rest.take n) parsed.items ∧
      (parsed.truncated = false → n = rest.length) := by
  induction rounds generalizing offset rest parsed with
  | zero =>
    have empty : rest = [] := List.length_eq_zero_iff.mp (by omega)
    subst rest
    cases scanned
    exact ⟨0,by simp,rfl,by simpa using Frames.done offset,by simp⟩
  | succ rounds ih =>
    simp only [Codec.parseLoop] at scanned
    split_ifs at scanned with ends
    · cases scanned
      have empty : rest = [] := by simpa using ends
      subst rest
      exact ⟨0,by simp,rfl,by simpa using Frames.done offset,by simp⟩
    · cases head : codec.frameAt offset rest with
      | error fault => simp [head] at scanned
      | ok found =>
        cases found with
        | none =>
          simp only [head] at scanned
          cases scanned
          exact ⟨0,by simp,rfl,by simpa using Frames.done offset,by simp⟩
        | some pair =>
          obtain ⟨a,size⟩ := pair
          obtain ⟨header,inside⟩ := frameAt_some head
          simp only [head] at scanned
          split at scanned
          · cases scanned
          rename_i next tail
          cases scanned
          -- the rest is framed relative to where this frame ends
          obtain ⟨n,short,valid,frames,all⟩ := ih (by rw [List.length_drop]; omega) tail
          rw [List.length_drop] at short all
          refine ⟨size+n,by omega,by simp only [valid]; omega,?_,?_⟩
          · refine .frame offset _ a size next.items ?_ ?_
            · exact frameAt_take head (by rw [List.take_take,Nat.min_eq_left (by omega)])
                (by rw [List.length_take]; omega)
            · rwa [List.drop_take,Nat.add_sub_cancel_left]
          · intro complete
            have := all complete
            omega

theorem Frames.parse (whole : codec.Frames 0 buf items) : codec.parse buf = .ok ⟨items,buf.length,false⟩ := by
  simpa [Codec.parse] using whole.parseLoop buf.length (Nat.le_refl _)

theorem frames_of_parse {parsed : Parsed α} (scanned : codec.parse buf = .ok parsed) :
    codec.Frames 0 (buf.take parsed.validLen) parsed.items ∧
      (parsed.truncated = false → parsed.validLen = buf.length) := by
  obtain ⟨n,short,valid,frames,all⟩ := frames_of_parseLoop (Nat.le_refl _) scanned
  rw [Nat.zero_add] at valid
  rw [valid]
  exact ⟨frames,all⟩

def contained (codec : Codec α) : List α → Nat → List α
  | [], _ => []
  | a::rest, n =>
    if (codec.frame a).length ≤ n then a::contained codec rest (n - (codec.frame a).length) else []

theorem frames_cons (a : α) (rest : List α) : codec.frames (a::rest) = codec.frame a ++ codec.frames rest := rfl

theorem frame_pos (a : α) : 0 < (codec.frame a).length := by
  rw [length_frame]
  omega

theorem parseLoop_take_frames (items : List α) (stores : ∀ a ∈ items, codec.Stores a) (n offset rounds : Nat)
    (cut : n ≤ (codec.frames items).length) (fits : ∀ a ∈ items, offset + n + (codec.frame a).length < 2^64)
    (enough : n ≤ rounds) : codec.parseLoop rounds offset ((codec.frames items).take n) =
      .ok ⟨codec.contained items n,offset + (codec.frames (codec.contained items n)).length,
        decide ((codec.frames (codec.contained items n)).length ≠ n)⟩ := by
  induction items generalizing n offset rounds with
  | nil =>
    obtain rfl : n = 0 := by simpa [frames] using cut
    cases rounds <;> simp [parseLoop,contained,frames]
  | cons a rest ih =>
    have stored := stores a (by simp)
    have room := fits a (by simp)
    have positive := @frame_pos _ codec a
    rw [frames_cons] at cut ⊢
    rw [List.length_append] at cut
    by_cases within : (codec.frame a).length ≤ n
    · -- the first frame is whole, the scan goes on behind it
      obtain ⟨rounds,rfl⟩ : ∃ m, rounds = m + 1 := ⟨rounds - 1,by omega⟩
      have shape : (codec.frame a ++ codec.frames rest).take n =
          codec.frame a ++ (codec.frames rest).take (n - (codec.frame a).length) := by
        rw [List.take_append,List.take_of_length_le within]
      have nonempty : (codec.frame a ++ (codec.frames rest).take (n - (codec.frame a).length)).isEmpty = false := by
        rw [List.isEmpty_eq_false_iff,Ne,List.append_eq_nil_iff,← List.length_eq_zero_iff]
        omega
      have head := frameAt_frame_append offset a stored ((codec.frames rest).take (n - (codec.frame a).length))
      rw [if_neg (by omega)] at head
      have tail := ih (fun b inside => stores b (by simp [inside])) (n - (codec.frame a).length)
        (offset + (codec.frame a).length) rounds (by omega) (fun b inside => by
          have := fits b (by simp [inside])
          omega) (by omega)
      rw [shape]
      simp only [parseLoop,nonempty,Bool.false_eq_true,if_false,head,List.drop_left,tail,contained,if_pos within,
        frames_cons,List.length_append]
      refine congrArg Except.ok ?_
      rw [Parsed.mk.injEq]
      refine ⟨rfl,by omega,?_⟩
      rw [decide_eq_decide]
      omega
    · -- the cut lies in the first frame
      have shape : (codec.frame a ++ codec.frames rest).take n = (codec.frame a).take n :=
        List.take_append_of_le_length (by omega)
      rw [shape]
      simp only [contained,if_neg within]
      cases rounds with
      | zero =>
        obtain rfl : n = 0 := by omega
        simp [parseLoop,frames]
      | succ rounds =>
        rcases Nat.eq_zero_or_pos n with rfl | some
        · simp [parseLoop,frames]
        · have torn : codec.frameAt offset ((codec.frame a).take n) = .ok none := by
            rcases frameAt_torn offset a stored (Nat.not_le.mp within) with none | ⟨_,long⟩
            · exact none
            · omega
          have nonempty : ((codec.frame a).take n).isEmpty = false := by
            rw [List.isEmpty_eq_false_iff,Ne,← List.length_eq_zero_iff,List.length_take]
            omega
          simp only [parseLoop,nonempty,Bool.false_eq_true,if_false,torn]
          simp [frames]
          omega

theorem contained_greatest (items : List α) (n : Nat) : ∃ k ≤ items.length,
    codec.contained items n = items.take k ∧ (codec.frames (items.take k)).length ≤ n ∧
      ∀ j ≤ items.length, (codec.frames (items.take j)).length ≤ n → j ≤ k := by
  induction items generalizing n with
  | nil => exact ⟨0,Nat.le_refl _,rfl,by simp [frames],fun j short _ => short⟩
  | cons a rest ih =>
    by_cases within : (codec.frame a).length ≤ n
    · obtain ⟨k,inside,same,fits,greatest⟩ := ih (n - (codec.frame a).length)
      refine ⟨k + 1,by simpa using inside,by simp [contained,within,same],?_,?_⟩
      · rw [List.take_succ_cons,frames_cons,List.length_append]
        omega
      · intro j short whole
        cases j with
        | zero => omega
        | succ j =>
          rw [List.take_succ_cons,frames_cons,List.length_append] at whole
          exact Nat.succ_le_succ (greatest j (by simpa using short) (by omega))
    · refine ⟨0,Nat.zero_le _,by simp [contained,within],by simp [frames],?_⟩
      intro j _ whole
      cases j with
      | zero => omega
      | succ j =>
        rw [List.take_succ_cons,frames_cons,List.length_append] at whole
        omega

end Codec

end AuraDb.Library.Framing
