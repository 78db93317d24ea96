import AuraDb.Core.Value
import AuraDb.Library.Slices

/-! The frames of the wire protocol. Decoding is written with the reads of the source, each of which may stop
the program; none does, a frame comes back from its encoding, and a part of an encoding asks for more bytes. -/
namespace AuraDb.Protocol
open Library Library.Framing Library.Slices

inductive Opcode where
  | hello | ping | health | auth
  | schemaCreate | schemaDrop | schemaGet | schemaList
  | query | mutate | cursorFetch | cursorClose | explain | migrationEstimate
  | txnBegin | txnCommit | txnRollback
  | helloAck | pong | healthResult | authResult | ok | queryResult | error
  deriving DecidableEq, Repr

namespace Opcode

def fromU8 (v : UInt8) : Result Opcode :=
  match v with
  | 0x01 => .ok .hello
  | 0x02 => .ok .ping
  | 0x03 => .ok .health
  | 0x04 => .ok .auth
  | 0x10 => .ok .schemaCreate
  | 0x11 => .ok .schemaDrop
  | 0x12 => .ok .schemaGet
  | 0x13 => .ok .schemaList
  | 0x20 => .ok .query
  | 0x21 => .ok .mutate
  | 0x22 => .ok .cursorFetch
  | 0x23 => .ok .cursorClose
  | 0x24 => .ok .explain
  | 0x25 => .ok .migrationEstimate
  | 0x30 => .ok .txnBegin
  | 0x31 => .ok .txnCommit
  | 0x32 => .ok .txnRollback
  | 0x81 => .ok .helloAck
  | 0x82 => .ok .pong
  | 0x83 => .ok .healthResult
  | 0x84 => .ok .authResult
  | 0x90 => .ok .ok
  | 0x91 => .ok .queryResult
  | 0xFF => .ok .error
  | other => .error (.protocol ("unknown opcode: 0x" ++ String.ofList (Hex.hexByte other)))

def asU8 : Opcode → UInt8
  | .hello => 0x01
  | .ping => 0x02
  | .health => 0x03
  | .auth => 0x04
  | .schemaCreate => 0x10
  | .schemaDrop => 0x11
  | .schemaGet => 0x12
  | .schemaList => 0x13
  | .query => 0x20
  | .mutate => 0x21
  | .cursorFetch => 0x22
  | .cursorClose => 0x23
  | .explain => 0x24
  | .migrationEstimate => 0x25
  | .txnBegin => 0x30
  | .txnCommit => 0x31
  | .txnRollback => 0x32
  | .helloAck => 0x81
  | .pong => 0x82
  | .healthResult => 0x83
  | .authResult => 0x84
  | .ok => 0x90
  | .queryResult => 0x91
  | .error => 0xFF

theorem fromU8_asU8 (op : Opcode) : fromU8 op.asU8 = .ok op := by
  cases op <;> rfl

end Opcode

inductive Compression where
  | none
  deriving DecidableEq, Repr

namespace Compression

def asU8 : Compression → UInt8
  | .none => 0

def fromU8 (v : UInt8) : Result Compression :=
  if v = 0 then .ok .none else .error (.unsupported ("compression mode " ++ toString v.toNat))

theorem fromU8_asU8 (c : Compression) : fromU8 c.asU8 = .ok c := by
  rfl

end Compression

def magic : Bytes := [0x41,0x55,0x52,0x41]

def protocolVersion : UInt8 := 1

def headerLen : Nat := 44

def headerChecksumOffset : Nat := 40

def flagPayloadChecksum : UInt16 := 0x0001

structure Frame where
  version : UInt8
  opcode : Opcode
  flags : UInt16
  compression : Compression
  requestId : BitVec 128
  txnId : UInt64
  payload : Bytes
  deriving DecidableEq

namespace Frame

def hasPayloadChecksum (f : Frame) : Bool := f.flags &&& flagPayloadChecksum != 0

def encodedLen (f : Frame) : Nat := headerLen + f.payload.length + if f.hasPayloadChecksum then 4 else 0

def headerFields (f : Frame) : Bytes :=
  magic ++ ([f.version,f.opcode.asU8] ++ (beBytes 2 f.flags.toNat ++ (beBytes 2 headerLen ++
    ([f.compression.asU8,0] ++ (beBytes 4 f.payload.length ++ (beBytes 16 f.requestId.toNat ++
      beBytes 8 f.txnId.toNat))))))

def header (crc : Bytes → UInt32) (f : Frame) : Bytes := f.headerFields ++ beBytes 4 (crc f.headerFields).toNat

def trailer (crc : Bytes → UInt32) (f : Frame) : Bytes :=
  if f.hasPayloadChecksum then beBytes 4 (crc f.payload).toNat else []

def encode (crc : Bytes → UInt32) (f : Frame) : Bytes := f.header crc ++ (f.payload ++ f.trailer crc)

structure Header where
  version : UInt8
  opcode : Opcode
  flags : UInt16
  compression : Compression
  payloadLen : Nat

def decodeHeader (crc : Bytes → UInt32) (buf : Bytes) (maxPayload : Nat) : Checked (Result Header) := do
  let start ← slice buf 0 4
  if start ≠ magic then pure (.error (.protocol "bad magic bytes")) else do
  let version ← index buf 4
  if version = 0 ∨ protocolVersion < version then
    pure (.error (.protocol ("unsupported protocol version " ++ toString version.toNat))) else do
  let opcodeByte ← index buf 5
  match Opcode.fromU8 opcodeByte with
  | .error e => pure (.error e)
  | .ok opcode =>
  let flags ← wordAt buf [6,7]
  let headerLength ← wordAt buf [8,9]
  if headerLength ≠ headerLen then
    pure (.error (.protocol ("invalid header length " ++ toString headerLength))) else do
  let compressionByte ← index buf 10
  match Compression.fromU8 compressionByte with
  | .error e => pure (.error e)
  | .ok compression =>
  let payloadLen ← wordAt buf [12,13,14,15]
  if maxPayload < payloadLen then
    pure (.error (.limitExceeded
      ("payload length " ++ toString payloadLen ++ " exceeds max " ++ toString maxPayload))) else do
  let stored ← wordAt buf [40,41,42,43]
  let covered ← slice buf 0 headerChecksumOffset
  if stored ≠ (crc covered).toNat then pure (.error (.corruption "header checksum mismatch")) else
  pure (.ok ⟨version,opcode,UInt16.ofNat flags,compression,payloadLen⟩)

def decodeBody (crc : Bytes → UInt32) (buf : Bytes) (h : Header) (total : Nat) :
    Checked (Result (Option (Frame × Nat))) := do
  let requestBytes ← slice buf 16 32
  let requestId ← word 16 requestBytes
  let txnBytes ← slice buf 32 40
  let txnId ← word 8 txnBytes
  let stop ← add headerLen h.payloadLen
  let payload ← slice buf headerLen stop
  let frame : Frame := ⟨h.version,h.opcode,h.flags,h.compression,BitVec.ofNat 128 requestId,UInt64.ofNat txnId,payload⟩
  if h.flags &&& flagPayloadChecksum != 0 then do
    let second ← add stop 1
    let third ← add stop 2
    let fourth ← add stop 3
    let stored ← wordAt buf [stop,second,third,fourth]
    if stored ≠ (crc payload).toNat then pure (.error (.corruption "payload checksum mismatch")) else
    pure (.ok (some (frame,total)))
  else pure (.ok (some (frame,total)))

def decode (crc : Bytes → UInt32) (buf : Bytes) (maxPayload : Nat) : Checked (Result (Option (Frame × Nat))) :=
  if buf.length < headerLen then pure (.ok none) else do
  match ← decodeHeader crc buf maxPayload with
  | .error e => pure (.error e)
  | .ok h =>
    let bodyEnd ← add headerLen h.payloadLen
    let total ← add bodyEnd (if h.flags &&& flagPayloadChecksum != 0 then 4 else 0)
    if buf.length < total then pure (.ok none) else
    decodeBody crc buf h total

variable {crc : Bytes → UInt32} {f : Frame}

@[simp] theorem length_headerFields (f : Frame) : f.headerFields.length = 40 := by
  simp [headerFields,magic]

@[simp] theorem length_header (f : Frame) : (f.header crc).length = 44 := by
  simp [header]

theorem length_encode (f : Frame) : (f.encode crc).length = f.encodedLen := by
  simp only [encode,trailer,encodedLen,headerLen,List.length_append,length_header]
  split
  · simp
    omega
  · simp

section Layout
variable (crc f) (rest : Bytes)

theorem take_magic : (f.header crc ++ rest).take 4 = magic := by
  simp [header,headerFields,magic]

theorem take_headerFields : (f.header crc ++ rest).take 40 = f.headerFields := by
  simp [header]

theorem at_version : (f.header crc ++ rest)[4]? = some f.version := by
  simp [header,headerFields,magic]

theorem at_opcode : (f.header crc ++ rest)[5]? = some f.opcode.asU8 := by
  simp [header,headerFields,magic]

theorem at_flags : ((f.header crc ++ rest).drop 6).take 2 = beBytes 2 f.flags.toNat := by
  simp [header,headerFields,magic]

theorem at_headerLength : ((f.header crc ++ rest).drop 8).take 2 = beBytes 2 headerLen := by
  simp [header,headerFields,magic]

theorem at_compression : (f.header crc ++ rest)[10]? = some f.compression.asU8 := by
  simp [header,headerFields,magic,List.getElem?_append]

theorem at_payloadLen : ((f.header crc ++ rest).drop 12).take 4 = beBytes 4 f.payload.length := by
  simp [header,headerFields,magic,List.drop_append,List.drop_of_length_le]

theorem at_requestId : ((f.header crc ++ rest).drop 16).take 16 = beBytes 16 f.requestId.toNat := by
  simp [header,headerFields,magic,List.drop_append,List.drop_of_length_le]

theorem at_txnId : ((f.header crc ++ rest).drop 32).take 8 = beBytes 8 f.txnId.toNat := by
  simp [header,headerFields,magic,List.drop_append,List.drop_of_length_le]

theorem at_headerChecksum : ((f.header crc ++ rest).drop 40).take 4 = beBytes 4 (crc f.headerFields).toNat := by
  simp [header]

end Layout

variable {buf : Bytes} {maxPayload n : Nat}

theorem index_eq {i : Nat} {b : UInt8} (found : buf[i]? = some b) : index buf i = .ok b := by
  rw [index,found]

theorem wordAt_eq (start width : Nat) (stored : (buf.drop start).take width = beBytes width n)
    (inside : start + width ≤ buf.length) (fits : n < 2^(8*width)) :
    wordAt buf (List.range' start width) = .ok n := by
  rw [Nat.pow_mul] at fits
  rw [wordAt_range start width inside,stored,beNat_beBytes width n fits]

/-- A frame of the supported version whose payload the limit and the length field admit. -/
structure Fits (maxPayload : Nat) (f : Frame) : Prop where
  version : f.version = protocolVersion
  limit : f.payload.length ≤ maxPayload
  word : f.payload.length < 2^32

theorem decodeHeader_header (fits : f.Fits maxPayload) (rest : Bytes) :
    decodeHeader crc (f.header crc ++ rest) maxPayload =
      .ok (.ok ⟨f.version,f.opcode,f.flags,f.compression,f.payload.length⟩) := by
  have long : 44 ≤ (f.header crc ++ rest).length := by simp
  have flags : wordAt (f.header crc ++ rest) [6,7] = .ok f.flags.toNat :=
    wordAt_eq 6 2 (at_flags crc f rest) (by omega) f.flags.toNat_lt
  have headerLength : wordAt (f.header crc ++ rest) [8,9] = .ok headerLen :=
    wordAt_eq 8 2 (at_headerLength crc f rest) (by omega) (by decide)
  have payloadLen : wordAt (f.header crc ++ rest) [12,13,14,15] = .ok f.payload.length :=
    wordAt_eq 12 4 (at_payloadLen crc f rest) (by omega) fits.word
  have checksum : wordAt (f.header crc ++ rest) [40,41,42,43] = .ok (crc f.headerFields).toNat :=
    wordAt_eq 40 4 (at_headerChecksum crc f rest) (by omega) (crc f.headerFields).toNat_lt
  have start : slice (f.header crc ++ rest) 0 4 = .ok magic := by
    rw [slice_ok (by omega) (by omega),List.drop_zero,take_magic]
  have covered : slice (f.header crc ++ rest) 0 headerChecksumOffset = .ok f.headerFields := by
    rw [headerChecksumOffset,slice_ok (by omega) (by omega),List.drop_zero,take_headerFields]
  have supported : ¬ (f.version = 0 ∨ protocolVersion < f.version) := by
    rw [fits.version]
    decide
  have limit := Nat.not_lt.mpr fits.limit
  simp only [decodeHeader,start,index_eq (at_version crc f rest),index_eq (at_opcode crc f rest),flags,headerLength,
    index_eq (at_compression crc f rest),payloadLen,checksum,covered,ok_bind,Opcode.fromU8_asU8,
    Compression.fromU8_asU8,if_neg supported,if_neg limit,UInt16.ofNat_toNat,ne_eq,not_true_eq_false,if_false]
  rfl

theorem decodeHeader_total {maxPayload : Nat} {buf : Bytes} (long : 44 ≤ buf.length) :
    ∃ r, decodeHeader crc buf maxPayload = .ok r ∧ ∀ h, r = .ok h → h.payloadLen < 2^32 := by
  have words (start width : Nat) (inside : start + width ≤ 44) := wordAt_range start width (inside.trans long)
  have length : (List.take 4 (List.drop 12 buf)).length = 4 := by
    rw [List.length_take,List.length_drop]
    omega
  have bound := beNat_lt ((buf.drop 12).take 4)
  rw [length] at bound
  simp only [decodeHeader,slice_ok (Nat.zero_le _) (by omega : 4 ≤ buf.length),ok_bind,
    index_ok (by omega : 4 < buf.length),index_ok (by omega : 5 < buf.length),
    index_ok (by omega : 10 < buf.length),show wordAt buf [6,7] = _ from words 6 2 (by decide),
    show wordAt buf [8,9] = _ from words 8 2 (by decide),
    show wordAt buf [12,13,14,15] = _ from words 12 4 (by decide),
    show wordAt buf [40,41,42,43] = _ from words 40 4 (by decide),
    slice_ok (Nat.zero_le _) (by rw [headerChecksumOffset]; omega : headerChecksumOffset ≤ buf.length)]
  split
  · exact ⟨_,rfl,by simp⟩
  split
  · exact ⟨_,rfl,by simp⟩
  cases Opcode.fromU8 buf[5] with
  | error e => exact ⟨_,rfl,by simp⟩
  | ok opcode =>
    simp only
    split
    · exact ⟨_,rfl,by simp⟩
    cases Compression.fromU8 buf[10] with
    | error e => exact ⟨_,rfl,by simp⟩
    | ok compression =>
      simp only
      split
      · exact ⟨_,rfl,by simp⟩
      split
      · exact ⟨_,rfl,by simp⟩
      · refine ⟨_,rfl,?_⟩
        intro h same
        cases same
        exact bound

theorem decodeBody_encode (fits : f.Fits maxPayload) (trailing : Bytes) (total : Nat) :
    decodeBody crc (f.encode crc ++ trailing) ⟨f.version,f.opcode,f.flags,f.compression,f.payload.length⟩ total =
      .ok (.ok (some (f,total))) := by
  have short := fits.word
  have shape : f.encode crc ++ trailing = f.header crc ++ (f.payload ++ (f.trailer crc ++ trailing)) := by
    simp [encode]
  have long : 44 + f.payload.length ≤ (f.encode crc ++ trailing).length := by
    rw [shape]
    simp
  have request : slice (f.encode crc ++ trailing) 16 32 = .ok (beBytes 16 f.requestId.toNat) := by
    rw [slice_ok (by omega) (by omega),shape,at_requestId]
  have txn : slice (f.encode crc ++ trailing) 32 40 = .ok (beBytes 8 f.txnId.toNat) := by
    rw [slice_ok (by omega) (by omega),shape,at_txnId]
  have payload : slice (f.encode crc ++ trailing) headerLen (headerLen + f.payload.length) = .ok f.payload := by
    rw [headerLen,slice_ok (by omega) (by omega),shape,Nat.add_sub_cancel_left,
      List.drop_left' (length_header f),List.take_left]
  have requestWord : word 16 (beBytes 16 f.requestId.toNat) = .ok f.requestId.toNat := by
    rw [word,if_pos (length_beBytes 16 _),beNat_beBytes 16 _ (by simpa using f.requestId.isLt)]
  have txnWord : word 8 (beBytes 8 f.txnId.toNat) = .ok f.txnId.toNat := by
    rw [word,if_pos (length_beBytes 8 _),beNat_beBytes 8 _ (by simpa using f.txnId.toNat_lt)]
  simp only [decodeBody,request,requestWord,txn,txnWord,
    add_ok (by rw [headerLen]; omega : headerLen + f.payload.length < 2^64),payload,ok_bind,BitVec.ofNat_toNat,BitVec.setWidth_eq,UInt64.ofNat_toNat]
  split
  · rename_i flagged
    have flagged : f.hasPayloadChecksum = true := flagged
    have stored : wordAt (f.encode crc ++ trailing) (List.range' (44 + f.payload.length) 4) =
        .ok (crc f.payload).toNat := by
      refine wordAt_eq _ _ ?_ ?_ (crc f.payload).toNat_lt
      · rw [shape,← List.append_assoc,List.drop_left' (by simp),trailer,if_pos flagged,
          List.take_left' (length_beBytes _ _)]
      · rw [shape,trailer,if_pos flagged]
        simp
        omega
    rw [add_ok (by rw [headerLen]; omega),add_ok (by rw [headerLen]; omega),add_ok (by rw [headerLen]; omega)]
    simp only [ok_bind,show wordAt (f.encode crc ++ trailing) [headerLen + f.payload.length,
      headerLen + f.payload.length + 1,headerLen + f.payload.length + 2,headerLen + f.payload.length + 3] = _ from stored,
      ne_eq,not_true_eq_false,if_false]
    rfl
  · rfl

theorem decodeBody_total {h : Header} (total : Nat) (short : h.payloadLen < 2^32)
    (long : headerLen + h.payloadLen + (if h.flags &&& flagPayloadChecksum != 0 then 4 else 0) ≤ buf.length) :
    ∃ r, decodeBody crc buf h total = .ok r := by
  rw [headerLen] at long
  simp only [decodeBody,headerLen,slice_ok (by omega : 16 ≤ 32) (by omega : 32 ≤ buf.length),
    slice_ok (by omega : 32 ≤ 40) (by omega : 40 ≤ buf.length),ok_bind,
    word_slice_ok (by omega : 16 + 16 ≤ buf.length),word_slice_ok (by omega : 32 + 8 ≤ buf.length),
    add_ok (by omega : 44 + h.payloadLen < 2^64),
    slice_ok (by omega : 44 ≤ 44 + h.payloadLen) (by omega : 44 + h.payloadLen ≤ buf.length)]
  split
  · rename_i flagged
    rw [if_pos flagged] at long
    have stored := @wordAt_range buf (44 + h.payloadLen) 4 (by omega)
    rw [add_ok (by omega),add_ok (by omega),add_ok (by omega)]
    simp only [ok_bind,show wordAt buf [44 + h.payloadLen,44 + h.payloadLen + 1,44 + h.payloadLen + 2,
      44 + h.payloadLen + 3] = _ from stored]
    split
    · exact ⟨_,rfl⟩
    · exact ⟨_,rfl⟩
  · exact ⟨_,rfl⟩

theorem decode_short (short : buf.length < headerLen) : decode crc buf maxPayload = .ok (.ok none) := if_pos short

theorem decode_header (fits : f.Fits maxPayload) (rest : Bytes) : decode crc (f.header crc ++ rest) maxPayload =
      if (f.header crc ++ rest).length < f.encodedLen then .ok (.ok none)
      else decodeBody crc (f.header crc ++ rest)
        ⟨f.version,f.opcode,f.flags,f.compression,f.payload.length⟩ f.encodedLen := by
  have short := fits.word
  have present : ¬ (f.header crc ++ rest).length < headerLen := by simp [headerLen]
  have total : headerLen + f.payload.length + (if f.flags &&& flagPayloadChecksum != 0 then 4 else 0) < 2^64 := by
    rw [headerLen]
    split
    all_goals omega
  simp only [decode,if_neg present,decodeHeader_header fits rest,ok_bind,
    add_ok (by rw [headerLen]; omega : headerLen + f.payload.length < 2^64),add_ok total]
  rfl

theorem decode_encode (fits : f.Fits maxPayload) (trailing : Bytes) :
    decode crc (f.encode crc ++ trailing) maxPayload = .ok (.ok (some (f,f.encodedLen))) := by
  have shape : f.encode crc ++ trailing = f.header crc ++ (f.payload ++ f.trailer crc ++ trailing) := by
    simp [encode]
  have length := @length_encode crc f
  have whole : ¬ (f.encode crc ++ trailing).length < f.encodedLen := by
    rw [List.length_append]
    omega
  rw [shape] at whole
  rw [shape,decode_header fits,if_neg whole,← shape,decodeBody_encode fits]

theorem decode_take (fits : f.Fits maxPayload) (cut : n < (f.encode crc).length) :
    decode crc ((f.encode crc).take n) maxPayload = .ok (.ok none) := by
  rcases Nat.lt_or_ge n headerLen with inside | past
  · apply decode_short
    rw [List.length_take]
    omega
  · have shape : (f.encode crc).take n = f.header crc ++ (f.payload ++ f.trailer crc).take (n - 44) := by
      rw [encode,List.take_append,List.take_of_length_le (by rwa [length_header]),length_header]
    have short : ((f.encode crc).take n).length < f.encodedLen := by
      rw [List.length_take,← @length_encode crc]
      omega
    rw [shape] at short ⊢
    rw [decode_header fits,if_pos short]

theorem decode_total (buf : Buffer) (maxPayload : Nat) : ∃ r, decode crc buf.bytes maxPayload = .ok r := by
  rcases Nat.lt_or_ge buf.bytes.length headerLen with short | long
  · exact ⟨_,decode_short short⟩
  · obtain ⟨r,header,bound⟩ := @decodeHeader_total crc maxPayload _ long
    cases r with
    | error e => exact ⟨.error e,by simp only [decode,if_neg (Nat.not_lt.mpr long),header,ok_bind]; rfl⟩
    | ok h =>
      have small := bound h rfl
      have total : headerLen + h.payloadLen + (if h.flags &&& flagPayloadChecksum != 0 then 4 else 0) < 2^64 := by
        rw [headerLen]
        split
        all_goals omega
      simp only [decode,if_neg (Nat.not_lt.mpr long),header,ok_bind,
        add_ok (by rw [headerLen]; omega : headerLen + h.payloadLen < 2^64),add_ok total]
      rcases Nat.lt_or_ge buf.bytes.length
        (headerLen + h.payloadLen + (if h.flags &&& flagPayloadChecksum != 0 then 4 else 0)) with torn | whole
      · exact ⟨_,if_pos torn⟩
      · rw [if_neg (Nat.not_lt.mpr whole)]
        exact decodeBody_total _ small whole

/-- A frame is read back from its encoding whatever follows, a part of the encoding asks for
more bytes, and no buffer makes the decoder read outside it. -/
theorem frame_codec (crc : Bytes → UInt32) (maxPayload : Nat) :
    (∀ f : Frame, f.version = protocolVersion → f.payload.length ≤ maxPayload → f.payload.length < 2^32 →
      (∀ trailing, decode crc (f.encode crc ++ trailing) maxPayload = .ok (.ok (some (f,(f.encode crc).length)))) ∧
      ∀ part, part <+: f.encode crc → part ≠ f.encode crc → decode crc part maxPayload = .ok (.ok none)) ∧
    ∀ buf : Buffer, ∃ r, decode crc buf.bytes maxPayload = .ok r := by
  refine ⟨?_,fun buf => decode_total buf maxPayload⟩
  intro f version limit word
  have fits : f.Fits maxPayload := ⟨version,limit,word⟩
  refine ⟨fun trailing => by rw [decode_encode fits,length_encode],?_⟩
  intro part cut strict
  have short : part.length < (f.encode crc).length :=
    Nat.lt_of_le_of_ne cut.length_le (fun same => strict (cut.eq_of_length same))
  rw [List.prefix_iff_eq_take.mp cut]
  exact decode_take fits short

def queryFrame : Frame := ⟨1,.query,flagPayloadChecksum,.none,0x11,42,[1,2,3]⟩

def lengthSum (bytes : Bytes) : UInt32 := UInt32.ofNat bytes.length

theorem frame_codec_query : decode lengthSum (queryFrame.encode lengthSum ++ [9]) 3 =
      .ok (.ok (some (queryFrame,(queryFrame.encode lengthSum).length))) ∧
    decode lengthSum ((queryFrame.encode lengthSum).take 46) 3 = .ok (.ok none) := by
  have codec := (frame_codec lengthSum 3).1 queryFrame rfl (by decide) (by decide)
  refine ⟨codec.1 [9],codec.2 _ (List.take_prefix _ _) ?_⟩
  intro same
  have lengths := congrArg List.length same
  exact absurd lengths (by decide)

end Frame

end AuraDb.Protocol
