import WasixEth.P2p.Stream

/-! # What is written is read

Two sides that derived their secrets from one handshake exchange frames. What
one side writes arrives in the buffer of the other; both write and read in any
order. A message comes back as it was as long as its size fits into the three
bytes of the frame header.
-/

namespace WasixEth

namespace RlpxFrameCodec

def frameSize (message : Message) : Nat := (frameContent message).length

/-- The size of the frame fits into its header. -/
def Short (message : Message) : Prop := frameSize message < 2 ^ 24

instance (message : Message) : Decidable (Short message) := inferInstanceAs (Decidable (_ < _))

/-! ## Sizes -/

theorem length_frameHeader (size : Nat) : (frameHeader size).length = 16 := by
  simp [frameHeader, Rlp.length_beBytes]

/-- The header holds the last three bytes of the size. -/
theorem announcedSize_frameHeader (size : Nat) :
    announcedSize (frameHeader size) = size % 2 ^ 24 := by
  have hthree : (frameHeader size).take 3 = Rlp.beBytes 3 size := by
    unfold frameHeader
    rw [List.append_assoc]
    exact List.take_left' (Rlp.length_beBytes 3 size)
  rw [announcedSize, hthree, Rlp.fromBytes, Rlp.foldl_beBytes]
  simp

theorem paddedSize_eq (size : Nat) : PartialFrame.paddedSize size = size + paddingLength size := by
  unfold PartialFrame.paddedSize paddingLength
  omega

theorem decodeInt_frameContent (message : Message) :
    Rlp.decodeInt 1 (frameContent message) = .ok (message.1.toNat, message.2) :=
  Rlp.decodeInt_encodeUint (by simpa using message.1.toNat_lt) (by decide) _

theorem frameSize_le (message : Message) : frameSize message ≤ message.2.length + 2 := by
  have hid := Rlp.length_uintBytes_le 1 message.1.toNat
  unfold frameSize frameContent Rlp.encodeUint
  rw [List.length_append, Rlp.length_encodeBytes, Nat.add_comm]
  refine Nat.add_le_add_left ?_ _
  cases hbytes : Rlp.uintBytes 1 message.1.toNat with
  | nil => decide
  | cons byte rest =>
      rw [hbytes, List.length_cons] at hid
      obtain rfl : rest = [] := List.eq_nil_of_length_eq_zero (by omega)
      unfold Rlp.bytesLength
      dsimp only
      split <;> decide

/-! ## The parts of a frame -/

section Parts

variable [Keccak256] [Aes]

/-- What the writer knows after the header of a frame. -/
def sealHeader (codec : RlpxFrameCodec) (message : Message) : RlpxFrameCodec × Bytes :=
  let (enc, headerCiphertext) := codec.enc.applyKeystream (frameHeader (frameSize message))
  ({ codec with enc, egressMac := codec.egressMac.updateHeader headerCiphertext },
    headerCiphertext)

def sealBody (codec : RlpxFrameCodec) (message : Message) : RlpxFrameCodec × Bytes :=
  let (enc, frameCiphertext) := codec.enc.applyKeystream
    (frameContent message ++ List.replicate (paddingLength (frameSize message)) 0)
  ({ codec with enc, egressMac := codec.egressMac.updateBody frameCiphertext }, frameCiphertext)

theorem writeFrame_eq (codec : RlpxFrameCodec) (message : Message) :
    codec.writeFrame message =
      (((codec.sealHeader message).1.sealBody message).1,
        (codec.sealHeader message).2 ++ ((codec.sealHeader message).1.egressMac.digest ++
          (((codec.sealHeader message).1.sealBody message).2 ++
            ((codec.sealHeader message).1.sealBody message).1.egressMac.digest))) := by
  simp only [writeFrame, sealHeader, sealBody, frameSize, List.append_assoc]

theorem length_sealHeader (codec : RlpxFrameCodec) (message : Message) :
    (codec.sealHeader message).2.length = 16 := by
  simp only [sealHeader, Cipher.applyKeystream, Keystream.length_apply, length_frameHeader]

theorem length_sealBody (codec : RlpxFrameCodec) (message : Message) :
    (codec.sealBody message).2.length = PartialFrame.paddedSize (frameSize message) := by
  simp only [sealBody, Cipher.applyKeystream, Keystream.length_apply, List.length_append,
    List.length_replicate, paddedSize_eq, frameSize]

theorem length_writeFrame (codec : RlpxFrameCodec) (message : Message) :
    (codec.writeFrame message).2.length = PartialFrame.paddedSize (frameSize message) + 48 := by
  rw [writeFrame_eq]
  simp only [List.length_append, length_sealHeader, length_sealBody, Mac.length_digest]
  omega

/-! ## In step -/

/-- The reader is where the writer is. -/
def InStep (writer reader : RlpxFrameCodec) : Prop :=
  reader.dec = writer.enc ∧ reader.ingressMac = writer.egressMac

/-- The reader, taken to where the writer is. -/
def follow (reader writer : RlpxFrameCodec) : RlpxFrameCodec :=
  { reader with dec := writer.enc, ingressMac := writer.egressMac }

/-- Two codecs write the same. -/
def SameEgress (codec other : RlpxFrameCodec) : Prop :=
  codec.enc = other.enc ∧ codec.egressMac = other.egressMac

omit [Keccak256] [Aes] in
theorem SameEgress.trans {codec other third : RlpxFrameCodec} (h : codec.SameEgress other)
    (h' : other.SameEgress third) : codec.SameEgress third :=
  ⟨h.1.trans h'.1, h.2.trans h'.2⟩

theorem sameEgress_readHeader (codec : RlpxFrameCodec) (headerCiphertext headerMac : Bytes) :
    (codec.readHeader headerCiphertext headerMac).1.SameEgress codec := by
  unfold readHeader
  dsimp only
  split_ifs <;> exact ⟨rfl, rfl⟩

theorem sameEgress_readFramePayload (codec : RlpxFrameCodec) (frameCiphertext frameMac : Bytes) :
    (codec.readFramePayload frameCiphertext frameMac).1.SameEgress codec := by
  unfold readFramePayload
  dsimp only
  split_ifs <;> exact ⟨rfl, rfl⟩

/-- The writer that a reader is in step with. -/
def mirror (reader : RlpxFrameCodec) : RlpxFrameCodec :=
  { reader with enc := reader.dec, egressMac := reader.ingressMac }

def writeAll (codec : RlpxFrameCodec) : List Message → RlpxFrameCodec × Bytes
  | [] => (codec, [])
  | message :: rest =>
      (((codec.writeFrame message).1.writeAll rest).1,
        (codec.writeFrame message).2 ++ ((codec.writeFrame message).1.writeAll rest).2)

theorem writeFrame_sameEgress {codec other : RlpxFrameCodec} (h : codec.SameEgress other)
    (message : Message) :
    (codec.writeFrame message).1.SameEgress (other.writeFrame message).1 ∧
      (codec.writeFrame message).2 = (other.writeFrame message).2 := by
  unfold writeFrame
  rw [h.1, h.2]
  exact ⟨⟨rfl, rfl⟩, rfl⟩

theorem writeAll_sameEgress {codec other : RlpxFrameCodec} (h : codec.SameEgress other)
    (messages : List Message) :
    (codec.writeAll messages).1.SameEgress (other.writeAll messages).1 ∧
      (codec.writeAll messages).2 = (other.writeAll messages).2 := by
  induction messages generalizing codec other with
  | nil => exact ⟨h, rfl⟩
  | cons message rest ih =>
      obtain ⟨hcodec, hframe⟩ := writeFrame_sameEgress h message
      obtain ⟨hrest, hframes⟩ := ih hcodec
      refine ⟨hrest, ?_⟩
      rw [writeAll, writeAll, hframe, hframes]

theorem writeAll_concat (codec : RlpxFrameCodec) (messages : List Message) (message : Message) :
    codec.writeAll (messages ++ [message]) =
      (((codec.writeAll messages).1.writeFrame message).1,
        (codec.writeAll messages).2 ++ ((codec.writeAll messages).1.writeFrame message).2) := by
  induction messages generalizing codec with
  | nil => rw [List.nil_append, writeAll, writeAll, writeAll, List.append_nil, List.nil_append]
  | cons first rest ih => rw [List.cons_append, writeAll, ih, writeAll, List.append_assoc]

variable {writer reader : RlpxFrameCodec}

theorem readHeader_sealHeader (h : InStep writer reader) (message : Message) :
    reader.readHeader (writer.sealHeader message).2 (writer.sealHeader message).1.egressMac.digest =
      (reader.follow (writer.sealHeader message).1, .ok (frameSize message % 2 ^ 24)) := by
  obtain ⟨hdec, hmac⟩ := h
  have hsize : ¬ 16 * 1024 * 1024 < frameSize message % 2 ^ 24 := by omega
  unfold readHeader
  rw [hdec, hmac]
  simp only [sealHeader, Cipher.applyKeystream, Keystream.apply_apply, Keystream.length_apply,
    ne_eq, not_true_eq_false, if_false, announcedSize_frameHeader, hsize]
  rfl

theorem readFramePayload_sealBody (h : InStep writer reader) (message : Message) :
    reader.readFramePayload (writer.sealBody message).2
        (writer.sealBody message).1.egressMac.digest =
      (reader.follow (writer.sealBody message).1,
        .ok (frameContent message ++ List.replicate (paddingLength (frameSize message)) 0)) := by
  obtain ⟨hdec, hmac⟩ := h
  unfold readFramePayload
  rw [hdec, hmac]
  simp only [sealBody, Cipher.applyKeystream, Keystream.apply_apply, Keystream.length_apply,
    ne_eq, not_true_eq_false, if_false]
  rfl

end Parts

end RlpxFrameCodec

namespace RlpxStream

open RlpxFrameCodec

variable [Keccak256] [Aes] {stream : RlpxStream} {writer reader : RlpxFrameCodec}
  {message : Message} {rest : Bytes}

/-! ## Reading a frame that was written -/

/-- The stream after the header of a frame. -/
def opened (stream : RlpxStream) (reader writer : RlpxFrameCodec) (message : Message)
    (rest : Bytes) : RlpxStream :=
  let header := (writer.sealHeader message).1
  { stream with
    codec := some (reader.follow header)
    readBuffer := (header.sealBody message).2 ++
      ((header.sealBody message).1.egressMac.digest ++ rest)
    partialFrame := some (.readBody (frameSize message % 2 ^ 24)) }

/-- Of a frame the reader sees the size modulo `2 ^ 24`. -/
theorem nextFrame_eq_checkBody (hcodec : stream.codec = some reader)
    (hnoFrame : stream.partialFrame = none) (hstep : InStep writer reader)
    (hbuffer : stream.readBuffer = (writer.writeFrame message).2 ++ rest) :
    stream.nextFrame =
      (stream.opened reader writer message rest).checkBody (frameSize message % 2 ^ 24) := by
  have hlength : ¬ stream.readBuffer.length < PartialFrame.readHeader.target := by
    rw [hbuffer, List.length_append, length_writeFrame, PartialFrame.target]
    omega
  have hparts : stream.readBuffer = (writer.sealHeader message).2 ++
      ((writer.sealHeader message).1.egressMac.digest ++
        (stream.opened reader writer message rest).readBuffer) := by
    rw [hbuffer, writeFrame_eq]
    simp only [opened, List.append_assoc]
  have hheader : stream.takeHeader =
      (stream.opened reader writer message rest, .ok (frameSize message % 2 ^ 24)) := by
    have hcipher := length_sealHeader writer message
    have hmac := Mac.length_digest (writer.sealHeader message).1.egressMac
    have htake : stream.readBuffer.take 16 = (writer.sealHeader message).2 := by
      rw [hparts, List.take_left' hcipher]
    have hdrop : stream.readBuffer.drop 16 = (writer.sealHeader message).1.egressMac.digest ++
        (stream.opened reader writer message rest).readBuffer := by
      rw [hparts, List.drop_left' hcipher]
    have hafter : stream.readBuffer.drop 32 =
        (stream.opened reader writer message rest).readBuffer := by
      rw [show 32 = 16 + 16 from rfl, ← List.drop_drop, hdrop, List.drop_left' hmac]
    unfold takeHeader
    rw [hcodec]
    dsimp only
    rw [htake, hdrop, List.take_left' hmac, readHeader_sealHeader hstep]
    dsimp only
    rw [hafter]
    rfl
  unfold nextFrame state
  rw [hnoFrame]
  change stream.check .readHeader = _
  rw [check, if_neg hlength, hheader, afterHeader]

/-- A short message is read back, and the reader is where the writer is. -/
theorem nextFrame_short (hcodec : stream.codec = some reader)
    (hnoFrame : stream.partialFrame = none) (hstep : InStep writer reader)
    (hbuffer : stream.readBuffer = (writer.writeFrame message).2 ++ rest)
    (hshort : Short message) :
    stream.nextFrame =
      ({ stream with
          codec := some (reader.follow (writer.writeFrame message).1)
          readBuffer := rest }, .frame message) := by
  rw [nextFrame_eq_checkBody hcodec hnoFrame hstep hbuffer, Nat.mod_eq_of_lt hshort]
  have hcipher := length_sealBody (writer.sealHeader message).1 message
  have hmac := Mac.length_digest ((writer.sealHeader message).1.sealBody message).1.egressMac
  have hlength : ¬ (stream.opened reader writer message rest).readBuffer.length <
      (PartialFrame.readBody (frameSize message)).target := by
    simp only [opened, List.length_append, hcipher, hmac, PartialFrame.target]
    omega
  have hcontent : (frameContent message ++
      List.replicate (paddingLength (frameSize message)) 0).take (frameSize message) =
        frameContent message := List.take_left
  have hlong : ¬ (frameContent message ++
      List.replicate (paddingLength (frameSize message)) 0).length < frameSize message := by
    rw [List.length_append]
    exact Nat.not_lt.mpr (Nat.le_add_right _ _)
  have hbody : (stream.opened reader writer message rest).takeBody (frameSize message) =
      ({ stream with
          codec := some (reader.follow (writer.writeFrame message).1)
          readBuffer := rest }, .ok message) := by
    unfold takeBody
    dsimp only [opened]
    rw [List.take_left' hcipher, List.drop_left' hcipher, List.take_left' hmac,
      readFramePayload_sealBody ⟨rfl, rfl⟩]
    dsimp only
    rw [if_neg hlong, hcontent, decodeInt_frameContent, ← List.drop_drop, List.drop_left' hcipher,
      List.drop_left' hmac, writeFrame_eq, ← hnoFrame]
    simp [follow]
  unfold checkBody
  rw [if_neg hlength, hbody]

theorem length_of_takeBody {stream' : RlpxStream} {size : Nat}
    (h : stream.takeBody size = (stream', .ok message)) : message.2.length ≤ size := by
  unfold takeBody at h
  dsimp only at h
  split at h
  next => cases h
  next =>
    split at h
    next => cases h
    next =>
      split at h
      next => cases h
      next =>
        split at h
        next => cases h
        next hdecode =>
          cases h
          refine Nat.le_trans (Rlp.length_of_decodeInt hdecode) ?_
          rw [List.length_take]
          exact Nat.min_le_left _ _

/-- A longer one is not. -/
theorem nextFrame_long (hcodec : stream.codec = some reader)
    (hnoFrame : stream.partialFrame = none) (hstep : InStep writer reader)
    (hbuffer : stream.readBuffer = (writer.writeFrame message).2 ++ rest)
    (hlong : ¬ Short message) :
    (∃ e, stream.nextFrame.2 = .failed e) ∨
      ∃ other, stream.nextFrame.2 = .frame other ∧ other ≠ message := by
  rw [nextFrame_eq_checkBody hcodec hnoFrame hstep hbuffer]
  have hsize : 2 ^ 24 ≤ frameSize message := Nat.le_of_not_lt hlong
  have hcipher := length_sealBody (writer.sealHeader message).1 message
  have hmac := Mac.length_digest ((writer.sealHeader message).1.sealBody message).1.egressMac
  have hlength : ¬ (stream.opened reader writer message rest).readBuffer.length <
      (PartialFrame.readBody (frameSize message % 2 ^ 24)).target := by
    simp only [opened, List.length_append, hcipher, hmac, PartialFrame.target,
      PartialFrame.paddedSize]
    omega
  unfold checkBody
  rw [if_neg hlength]
  split
  next stream' e hbody => exact .inl ⟨e, rfl⟩
  next stream' other hbody =>
    refine .inr ⟨other, rfl, ?_⟩
    rintro rfl
    have hopened := length_of_takeBody hbody
    have hwritten := frameSize_le other
    omega

/-! ## The half that writes -/

/-- The codec of a stream writes like the given one. -/
def WritesLike (stream : RlpxStream) (codec : RlpxFrameCodec) : Prop :=
  ∃ codec', stream.codec = some codec' ∧ codec'.SameEgress codec

theorem writesLike_takeHeader {codec : RlpxFrameCodec} (h : stream.WritesLike codec) :
    stream.takeHeader.1.WritesLike codec := by
  obtain ⟨codec', hcodec, hegress⟩ := h
  have hread := sameEgress_readHeader codec' (stream.readBuffer.take 16)
    ((stream.readBuffer.drop 16).take 16)
  unfold takeHeader
  rw [hcodec]
  dsimp only
  split
  next heq =>
    rw [heq] at hread
    exact ⟨_, rfl, hread.trans hegress⟩
  next heq =>
    rw [heq] at hread
    exact ⟨_, rfl, hread.trans hegress⟩

theorem writesLike_takeBody {codec : RlpxFrameCodec} (h : stream.WritesLike codec) (size : Nat) :
    (stream.takeBody size).1.WritesLike codec := by
  obtain ⟨codec', hcodec, hegress⟩ := h
  have hread := sameEgress_readFramePayload codec'
    (stream.readBuffer.take (PartialFrame.paddedSize size))
    ((stream.readBuffer.drop (PartialFrame.paddedSize size)).take 16)
  unfold takeBody
  rw [hcodec]
  dsimp only
  split
  next heq =>
    rw [heq] at hread
    exact ⟨_, rfl, hread.trans hegress⟩
  next heq =>
    rw [heq] at hread
    split
    next => exact ⟨_, rfl, hread.trans hegress⟩
    next => split <;> exact ⟨_, rfl, hread.trans hegress⟩

theorem writesLike_checkBody {codec : RlpxFrameCodec} (h : stream.WritesLike codec) (size : Nat) :
    (stream.checkBody size).1.WritesLike codec := by
  have hbody := writesLike_takeBody h size
  unfold checkBody
  split
  next => exact h
  next => split <;> next heq => rwa [heq] at hbody

/-- Reading leaves the half of the codec that writes. -/
theorem writesLike_nextFrame {codec : RlpxFrameCodec} (h : stream.WritesLike codec) :
    stream.nextFrame.1.WritesLike codec := by
  have hheader := writesLike_takeHeader h
  unfold nextFrame check
  split
  next =>
    split
    next => exact h
    next =>
      unfold afterHeader
      split
      next heq => rwa [heq] at hheader
      next heq =>
        rw [heq] at hheader
        exact writesLike_checkBody hheader _
  next => exact writesLike_checkBody h _

end RlpxStream

/-! ## Both directions -/

/-- One side writes a message or reads one. The initiator is `true`. -/
inductive LinkEvent where
  | write (side : Bool) (message : Message)
  | read (side : Bool)

/-- The two sides, with what each has read and written. -/
structure RlpxLink where
  stream : Bool → RlpxStream
  received : Bool → List Message
  written : Bool → List Message

namespace RlpxLink

open RlpxFrameCodec RlpxStream

variable [Keccak256] [Aes]

/-- Both sides after the handshake. -/
def start (initiatorNonce recipientNonce : B256) (agreedSecret authPacket ackPacket : Bytes) :
    RlpxLink where
  stream side :=
    { codec := some (.new (deriveSessionSecrets side initiatorNonce recipientNonce agreedSecret
        authPacket ackPacket))
      sharedCapabilities := []
      msgBuffer := []
      readBuffer := []
      partialFrame := none }
  received _ := []
  written _ := []

/-- A frame that is written arrives in the buffer of the other side. Reading
where no whole frame has arrived waits. -/
def step (link : RlpxLink) : LinkEvent → Except String RlpxLink
  | .write side message =>
      match (link.stream side).codec with
      | none => .error "Codec not initialized"
      | some codec =>
          let (codec, frame) := codec.writeFrame message
          let sender := { link.stream side with codec := some codec }
          let receiver := { link.stream (!side) with
            readBuffer := (link.stream (!side)).readBuffer ++ frame }
          .ok { link with
            stream := fun other => if other = side then sender else receiver
            written := Function.update link.written side (link.written side ++ [message]) }
  | .read side =>
      match (link.stream side).nextFrame with
      | (stream, .waiting _) => .ok { link with stream := Function.update link.stream side stream }
      | (_, .failed e) => .error e
      | (stream, .frame message) =>
          .ok { link with
            stream := Function.update link.stream side stream
            received := Function.update link.received side (link.received side ++ [message]) }

def run (link : RlpxLink)
    (events : List LinkEvent) : Except String RlpxLink := events.foldlM step link

/-- No read of a run fails, and if a side reads on it gets what the other side
wrote, until nothing is left. -/
def Transparent (link : RlpxLink) (events : List LinkEvent) : Prop :=
  ∀ side, ∃ count last,
    link.run (events ++ List.replicate count (.read side)) = .ok last ∧
      last.received side = last.written (!side) ∧ (last.stream side).readBuffer = []

/-! ## One direction of a link -/

/-- A side has read a part of what the other side wrote, and the rest is in its
buffer. -/
structure Following (link : RlpxLink) (side : Bool) (pending : List Message) : Prop where
  inStep : ∃ reader, (link.stream side).codec = some reader ∧
    (link.stream side).readBuffer = (reader.mirror.writeAll pending).2 ∧
    (link.stream (!side)).WritesLike (reader.mirror.writeAll pending).1
  between : (link.stream side).partialFrame = none
  written : link.written (!side) = link.received side ++ pending
  short : ∀ message ∈ link.received side, Short message

/-- A side has read something that was not written. -/
def Diverged (link : RlpxLink) (side : Bool) : Prop :=
  ∃ (index : Nat) (message other : Message), (link.received side)[index]? = some message ∧
    (link.written (!side))[index]? = some other ∧ message ≠ other

omit [Aes] in
/-- Each side starts where the other one starts to write. -/
theorem sameEgress_new (initiatorNonce recipientNonce : B256)
    (agreedSecret authPacket ackPacket : Bytes) (side : Bool) :
    (RlpxFrameCodec.new (deriveSessionSecrets (!side) initiatorNonce recipientNonce agreedSecret
        authPacket ackPacket)).SameEgress
      (RlpxFrameCodec.new (deriveSessionSecrets side initiatorNonce recipientNonce agreedSecret
        authPacket ackPacket)).mirror := by
  cases side <;> exact ⟨rfl, rfl⟩

theorem following_start (initiatorNonce recipientNonce : B256)
    (agreedSecret authPacket ackPacket : Bytes) (side : Bool) :
    (start initiatorNonce recipientNonce agreedSecret authPacket ackPacket).Following side [] where
  inStep := ⟨_, rfl, rfl, _, rfl, sameEgress_new _ _ _ _ _ side⟩
  between := rfl
  written := rfl
  short _ hmem := absurd hmem List.not_mem_nil

variable {link link' : RlpxLink} {side : Bool} {pending : List Message} {message : Message}

/-- What the other side writes joins what is pending. -/
theorem following_write (h : link.Following side pending)
    (hstep : link.step (.write (!side) message) = .ok link') :
    link'.Following side (pending ++ [message]) := by
  obtain ⟨reader, hreader, hbuffer, writer, hwriter, hegress⟩ := h.inStep
  obtain ⟨hsame, hframe⟩ := writeFrame_sameEgress hegress message
  unfold step at hstep
  dsimp only at hstep
  rw [hwriter] at hstep
  cases hstep
  refine ⟨⟨reader, ?_, ?_, ?_⟩, ?_, ?_, h.short⟩
  · simp [hreader]
  · simp [hbuffer, hframe, writeAll_concat]
  · rw [writeAll_concat]
    exact ⟨_, by simp, hsame⟩
  · simp [h.between]
  · simp [h.written]

/-- What the side itself writes does not matter. -/
theorem following_write_self (h : link.Following side pending)
    (hstep : link.step (.write side message) = .ok link') : link'.Following side pending := by
  obtain ⟨reader, hreader, hbuffer, hwriter⟩ := h.inStep
  unfold step at hstep
  dsimp only at hstep
  rw [hreader] at hstep
  cases hstep
  have hmirror : (reader.writeFrame message).1.mirror = reader.mirror := rfl
  refine ⟨⟨(reader.writeFrame message).1, ?_, ?_, ?_⟩, ?_, ?_, h.short⟩
  · simp
  · rw [hmirror]
    simpa using hbuffer
  · rw [hmirror]
    obtain ⟨writer, hcodec, hegress⟩ := hwriter
    exact ⟨writer, by simp [hcodec], hegress⟩
  · simp [h.between]
  · simp [h.written]

/-- Neither does what the other side reads. -/
theorem following_read_other (h : link.Following side pending)
    (hstep : link.step (.read (!side)) = .ok link') : link'.Following side pending := by
  obtain ⟨reader, hreader, hbuffer, hwriter⟩ := h.inStep
  have hlike := writesLike_nextFrame hwriter
  unfold step at hstep
  dsimp only at hstep
  split at hstep
  next heq =>
    cases hstep
    rw [heq] at hlike
    exact ⟨⟨reader, by simpa using hreader, by simpa using hbuffer, by simpa using hlike⟩,
      by simpa using h.between, by simpa using h.written, by simpa using h.short⟩
  next => cases hstep
  next heq =>
    cases hstep
    rw [heq] at hlike
    exact ⟨⟨reader, by simpa using hreader, by simpa using hbuffer, by simpa using hlike⟩,
      by simpa using h.between, by simpa using h.written, by simpa using h.short⟩

/-- With nothing pending a read waits. -/
theorem step_read_nil (h : link.Following side []) :
    ∃ link', link.step (.read side) = .ok link' ∧ link'.Following side [] ∧
      link'.received = link.received ∧ link'.written = link.written := by
  obtain ⟨reader, hreader, hbuffer, hwriter⟩ := h.inStep
  have hwaits : (link.stream side).nextFrame = (link.stream side, .waiting .readHeader) := by
    unfold nextFrame state
    rw [h.between]
    change (link.stream side).check .readHeader = _
    rw [check, hbuffer]
    rfl
  have hsame : Function.update link.stream side (link.stream side) = link.stream :=
    Function.update_eq_self _ _
  refine ⟨link, ?_, h, rfl, rfl⟩
  unfold step
  dsimp only
  rw [hwaits]
  dsimp only
  rw [hsame]

/-- A short message that is pending is read. -/
theorem step_read_short (h : link.Following side (message :: pending)) (hshort : Short message) :
    ∃ link', link.step (.read side) = .ok link' ∧ link'.Following side pending := by
  obtain ⟨reader, hreader, hbuffer, hwriter⟩ := h.inStep
  rw [writeAll] at hbuffer hwriter
  have hnext := nextFrame_short hreader h.between ⟨rfl, rfl⟩ hbuffer hshort
  obtain ⟨hsame, hframes⟩ := writeAll_sameEgress
    (show (reader.follow (reader.mirror.writeFrame message).1).mirror.SameEgress
      (reader.mirror.writeFrame message).1 from ⟨rfl, rfl⟩) pending
  refine ⟨_, by unfold step; dsimp only; rw [hnext],
    ⟨reader.follow (reader.mirror.writeFrame message).1, ?_, ?_, ?_⟩, ?_, ?_, ?_⟩
  · simp
  · simp [hframes]
  · obtain ⟨writer, hcodec, hegress⟩ := hwriter
    exact ⟨writer, by simp [hcodec], hegress.trans ⟨hsame.1.symm, hsame.2.symm⟩⟩
  · simp [h.between]
  · simp [h.written]
  · simp only [Function.update_self, List.mem_append, List.mem_singleton]
    rintro other (hmem | rfl)
    · exact h.short other hmem
    · exact hshort

/-- A longer one stops the run or comes out as another one. -/
theorem diverged_of_read_long (h : link.Following side (message :: pending))
    (hlong : ¬ Short message) (hstep : link.step (.read side) = .ok link') :
    link'.Diverged side := by
  obtain ⟨reader, hreader, hbuffer, hwriter⟩ := h.inStep
  rw [writeAll] at hbuffer
  unfold step at hstep
  dsimp only at hstep
  rcases nextFrame_long hreader h.between ⟨rfl, rfl⟩ hbuffer hlong with
    ⟨e, hfailed⟩ | ⟨other, hother, hne⟩
  · split at hstep
    next heq => rw [heq] at hfailed; cases hfailed
    next => cases hstep
    next heq => rw [heq] at hfailed; cases hfailed
  · split at hstep
    next heq => rw [heq] at hother; cases hother
    next => cases hstep
    next heq =>
      rw [heq] at hother
      cases hother
      cases hstep
      refine ⟨(link.received side).length, other, message, ?_, ?_, hne⟩
      · simp
      · simp [h.written]

theorem grows_step {event : LinkEvent} (hstep : link.step event = .ok link') (side : Bool) :
    link.received side <+: link'.received side ∧ link.written side <+: link'.written side := by
  unfold step at hstep
  dsimp only at hstep
  split at hstep
  next who message =>
    split at hstep
    next => cases hstep
    next =>
      cases hstep
      refine ⟨List.prefix_rfl, ?_⟩
      dsimp only
      by_cases hwho : side = who
      · subst hwho
        rw [Function.update_self]
        exact List.prefix_append _ _
      · rw [Function.update_of_ne hwho]
  next who =>
    split at hstep
    next => cases hstep; exact ⟨List.prefix_rfl, List.prefix_rfl⟩
    next => cases hstep
    next =>
      cases hstep
      refine ⟨?_, List.prefix_rfl⟩
      dsimp only
      by_cases hwho : side = who
      · subst hwho
        rw [Function.update_self]
        exact List.prefix_append _ _
      · rw [Function.update_of_ne hwho]

/-- What has gone wrong stays wrong. -/
theorem diverged_step {event : LinkEvent} (h : link.Diverged side)
    (hstep : link.step event = .ok link') : link'.Diverged side := by
  obtain ⟨index, message, other, hreceived, hwritten, hne⟩ := h
  obtain ⟨moreReceived, hreceived'⟩ := (grows_step hstep side).1
  obtain ⟨moreWritten, hwritten'⟩ := (grows_step hstep (!side)).2
  refine ⟨index, message, other, ?_, ?_, hne⟩
  · rw [← hreceived', List.getElem?_append_left (List.getElem?_eq_some_iff.mp hreceived).1,
      hreceived]
  · rw [← hwritten', List.getElem?_append_left (List.getElem?_eq_some_iff.mp hwritten).1,
      hwritten]

/-! ## Whole runs -/

/-- A step keeps a side in step or takes it out of step for good. -/
theorem following_or_diverged_step {event : LinkEvent}
    (h : (∃ pending, link.Following side pending) ∨ link.Diverged side)
    (hstep : link.step event = .ok link') :
    (∃ pending, link'.Following side pending) ∨ link'.Diverged side := by
  rcases h with ⟨pending, hfollowing⟩ | hdiverged
  · cases event with
    | write who message =>
        rcases Bool.eq_or_eq_not who side with rfl | rfl
        · exact .inl ⟨_, following_write_self hfollowing hstep⟩
        · exact .inl ⟨_, following_write hfollowing hstep⟩
    | read who =>
        rcases Bool.eq_or_eq_not who side with rfl | rfl
        · cases pending with
          | nil =>
              obtain ⟨link'', hstep', hfollowing', -⟩ := step_read_nil hfollowing
              rw [hstep] at hstep'
              cases hstep'
              exact .inl ⟨_, hfollowing'⟩
          | cons message pending =>
              by_cases hshort : Short message
              · obtain ⟨link'', hstep', hfollowing'⟩ := step_read_short hfollowing hshort
                rw [hstep] at hstep'
                cases hstep'
                exact .inl ⟨_, hfollowing'⟩
              · exact .inr (diverged_of_read_long hfollowing hshort hstep)
        · exact .inl ⟨_, following_read_other hfollowing hstep⟩
  · exact .inr (diverged_step hdiverged hstep)

theorem run_cons_ok {event : LinkEvent} {rest : List LinkEvent}
    (h : link.run (event :: rest) = .ok link') :
    ∃ next, link.step event = .ok next ∧ next.run rest = .ok link' := by
  unfold run at h
  rw [List.foldlM_cons] at h
  cases hstep : link.step event with
  | error e =>
      rw [hstep] at h
      cases h
  | ok next =>
      rw [hstep] at h
      exact ⟨next, rfl, h⟩

theorem run_append {events more : List LinkEvent} {next : RlpxLink}
    (h : link.run events = .ok next) : link.run (events ++ more) = next.run more := by
  unfold run at h ⊢
  rw [List.foldlM_append, h]
  rfl

theorem following_or_diverged_run {events : List LinkEvent}
    (h : (∃ pending, link.Following side pending) ∨ link.Diverged side)
    (hrun : link.run events = .ok link') :
    (∃ pending, link'.Following side pending) ∨ link'.Diverged side := by
  induction events generalizing link with
  | nil =>
      cases hrun
      exact h
  | cons event rest ih =>
      obtain ⟨next, hstep, hrest⟩ := run_cons_ok hrun
      exact ih (following_or_diverged_step h hstep) hrest

theorem written_run {events : List LinkEvent} (hrun : link.run events = .ok link') (side : Bool) :
    link.written side <+: link'.written side := by
  induction events generalizing link with
  | nil =>
      cases hrun
      exact List.prefix_rfl
  | cons event rest ih =>
      obtain ⟨next, hstep, hrest⟩ := run_cons_ok hrun
      exact (grows_step hstep side).2.trans (ih hrest)

theorem mem_written_run {events : List LinkEvent} (hrun : link.run events = .ok link')
    (hmem : .write side message ∈ events) : message ∈ link'.written side := by
  induction events generalizing link with
  | nil => exact absurd hmem List.not_mem_nil
  | cons event rest ih =>
      obtain ⟨next, hstep, hrest⟩ := run_cons_ok hrun
      rcases List.mem_cons.mp hmem with rfl | hmem
      · refine (written_run hrest side).subset ?_
        unfold step at hstep
        dsimp only at hstep
        split at hstep
        next => cases hstep
        next =>
          cases hstep
          simp
      · exact ih hrest hmem

/-- A side that has read all that was written, with an empty buffer, has read
short messages only. -/
theorem short_of_received (h : (∃ pending, link.Following side pending) ∨ link.Diverged side)
    (hreceived : link.received side = link.written (!side)) :
    ∀ message ∈ link.written (!side), Short message := by
  rcases h with ⟨pending, hfollowing⟩ | ⟨index, message, other, hmessage, hother, hne⟩
  · rw [← hreceived]
    exact hfollowing.short
  · rw [hreceived, hother] at hmessage
    exact absurd (Option.some.inj hmessage).symm hne

/-- Both sides are in step and only short messages are on their way. -/
def Sound (link : RlpxLink) : Prop :=
  ∀ side, ∃ pending, link.Following side pending ∧ ∀ message ∈ pending, Short message

theorem sound_step {event : LinkEvent} (h : link.Sound)
    (hshort : ∀ side message, event = .write side message → Short message) :
    ∃ link', link.step event = .ok link' ∧ link'.Sound := by
  cases event with
  | write who message =>
      obtain ⟨pending, hfollowing, hpending⟩ := h who
      obtain ⟨reader, hreader, -⟩ := hfollowing.inStep
      have hstep : ∃ link', link.step (.write who message) = .ok link' := by
        unfold step
        dsimp only
        rw [hreader]
        exact ⟨_, rfl⟩
      obtain ⟨link', hstep⟩ := hstep
      refine ⟨link', hstep, fun side => ?_⟩
      rcases Bool.eq_or_eq_not who side with rfl | rfl
      · exact ⟨pending, following_write_self hfollowing hstep, hpending⟩
      · obtain ⟨pending, hfollowing, hpending⟩ := h side
        refine ⟨_, following_write hfollowing hstep, ?_⟩
        intro other hmem
        rcases List.mem_append.mp hmem with hmem | hmem
        · exact hpending other hmem
        · rw [List.mem_singleton.mp hmem]
          exact hshort _ message rfl
  | read who =>
      have hread : ∃ link' pending, link.step (.read who) = .ok link' ∧
          link'.Following who pending ∧ ∀ message ∈ pending, Short message := by
        obtain ⟨pending, hfollowing, hpending⟩ := h who
        cases pending with
        | nil =>
            obtain ⟨link', hstep, hfollowing', -⟩ := step_read_nil hfollowing
            exact ⟨link', [], hstep, hfollowing', hpending⟩
        | cons message pending =>
            obtain ⟨link', hstep, hfollowing'⟩ :=
              step_read_short hfollowing (hpending message List.mem_cons_self)
            exact ⟨link', pending, hstep, hfollowing',
              fun other hmem => hpending other (List.mem_cons_of_mem _ hmem)⟩
      obtain ⟨link', pending, hstep, hfollowing, hpending⟩ := hread
      refine ⟨link', hstep, fun side => ?_⟩
      rcases Bool.eq_or_eq_not who side with rfl | rfl
      · exact ⟨pending, hfollowing, hpending⟩
      · obtain ⟨pending, hfollowing, hpending⟩ := h side
        exact ⟨pending, following_read_other hfollowing hstep, hpending⟩

theorem sound_run {events : List LinkEvent} (h : link.Sound)
    (hshort : ∀ side message, .write side message ∈ events → Short message) :
    ∃ link', link.run events = .ok link' ∧ link'.Sound := by
  induction events generalizing link with
  | nil => exact ⟨link, rfl, h⟩
  | cons event rest ih =>
      obtain ⟨next, hstep, hnext⟩ := sound_step h fun side message heq =>
        hshort side message (heq ▸ List.mem_cons_self)
      obtain ⟨link', hrun, hlink'⟩ := ih hnext fun side message hmem =>
        hshort side message (List.mem_cons_of_mem _ hmem)
      refine ⟨link', ?_, hlink'⟩
      unfold run at hrun ⊢
      rw [List.foldlM_cons, hstep]
      exact hrun

/-- A side that is in step reads what is pending and then has an empty buffer. -/
theorem run_reads (h : link.Following side pending)
    (hpending : ∀ message ∈ pending, Short message) :
    ∃ link', link.run (List.replicate pending.length (.read side)) = .ok link' ∧
      link'.Following side [] := by
  induction pending generalizing link with
  | nil => exact ⟨link, rfl, h⟩
  | cons message pending ih =>
      obtain ⟨next, hstep, hnext⟩ := step_read_short h (hpending message List.mem_cons_self)
      obtain ⟨link', hrun, hlink'⟩ := ih hnext fun other hmem =>
        hpending other (List.mem_cons_of_mem _ hmem)
      refine ⟨link', ?_, hlink'⟩
      unfold run at hrun ⊢
      rw [List.length_cons, List.replicate_succ, List.foldlM_cons, hstep]
      exact hrun

theorem transparent_of_short {events : List LinkEvent} (h : link.Sound)
    (hshort : ∀ side message, .write side message ∈ events → Short message) :
    link.Transparent events := by
  intro side
  obtain ⟨next, hrun, hnext⟩ := sound_run h hshort
  obtain ⟨pending, hfollowing, hpending⟩ := hnext side
  obtain ⟨last, hreads, hlast⟩ := run_reads hfollowing hpending
  refine ⟨pending.length, last, ?_, ?_, ?_⟩
  · rw [run_append hrun, hreads]
  · rw [hlast.written, List.append_nil]
  · obtain ⟨reader, -, hbuffer, -⟩ := hlast.inStep
    exact hbuffer

theorem short_of_transparent {events : List LinkEvent}
    (h : ∀ side, ∃ pending, link.Following side pending) (htransparent : link.Transparent events)
    (hmem : .write side message ∈ events) : Short message := by
  obtain ⟨count, last, hrun, hreceived, -⟩ := htransparent (!side)
  have hlast := following_or_diverged_run (.inl (h (!side))) hrun
  rw [Bool.not_not] at hreceived
  have hall := short_of_received hlast (by rwa [Bool.not_not])
  rw [Bool.not_not] at hall
  exact hall message (mem_written_run hrun (List.mem_append_left _ hmem))

/-- The link is transparent exactly if every message that is written is short. -/
theorem transparent_iff (initiatorNonce recipientNonce : B256)
    (agreedSecret authPacket ackPacket : Bytes) (events : List LinkEvent) :
    (start initiatorNonce recipientNonce agreedSecret authPacket ackPacket).Transparent events ↔
      ∀ side message, .write side message ∈ events → Short message := by
  have hstart := following_start initiatorNonce recipientNonce agreedSecret authPacket ackPacket
  constructor
  · intro htransparent side message hmem
    exact short_of_transparent (fun side => ⟨[], hstart side⟩) htransparent hmem
  · intro hshort
    exact transparent_of_short
      (fun side => ⟨[], hstart side, fun _ hmem => absurd hmem List.not_mem_nil⟩) hshort

/-- A message with a payload of 16 MiB. -/
@[irreducible] def longMessage : Message := (0, List.replicate (2 ^ 24) 0)

omit [Keccak256] [Aes] in
/-- It does not come through, whatever AES and the hash are. -/
theorem not_transparent_long : ¬ ∃ (_ : Aes) (_ : Keccak256),
    (start B256.zero B256.zero [] [] []).Transparent [.write true longMessage] := by
  rintro ⟨_, _, htransparent⟩
  have hshort := short_of_transparent
    (fun side => ⟨[], following_start B256.zero B256.zero [] [] [] side⟩) htransparent
    List.mem_cons_self
  have hlength : longMessage.2.length = 2 ^ 24 := by
    unfold longMessage
    rw [List.length_replicate]
  unfold Short frameSize frameContent at hshort
  rw [List.length_append, hlength] at hshort
  omega

end RlpxLink

end WasixEth
