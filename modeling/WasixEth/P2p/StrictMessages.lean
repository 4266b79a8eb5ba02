import WasixEth.P2p.WireMessages

/-! # Messages have one encoding

Whatever a peer sends as a message, only the bytes that this node would write for it are
accepted. The reason of a disconnect is the exception: several encodings are accepted.
-/

namespace WasixEth

open Rlp

/-! ## Fields -/

section Fields

theorem strict_b256 : b256Codec.Strict :=
  (Codec.strict_fixed (by decide)).map (fun _ => rfl) fun _ => rfl

theorem strict_u64 : u64Codec.Strict :=
  Codec.strict_uint (by decide) UInt64.toNat_lt (by simp) fun n hn => by
    rw [UInt64.toNat_ofNat_of_lt' hn]

theorem occupied_b256 : b256Codec.Occupied := fun value =>
  Codec.occupied_fixed 32 ⟨value.bytes, value.length_eq⟩

theorem occupied_u64 : u64Codec.Occupied := Codec.occupied_uint 8 _ _

end Fields

namespace P2p

theorem strict_u8 : u8Codec.Strict :=
  Codec.strict_uint (by decide) UInt8.toNat_lt (by simp) fun n hn => by
    rw [UInt8.toNat_ofNat_of_lt' hn]

theorem strict_u16 : u16Codec.Strict :=
  Codec.strict_uint (by decide) UInt16.toNat_lt (by simp) fun n hn => by
    rw [UInt16.toNat_ofNat_of_lt' hn]

theorem strict_u256 : u256Codec.Strict :=
  Codec.strict_uint (by decide) BitVec.isLt (by simp) fun n hn => by
    have hn' : n < 2 ^ 256 := by
      rwa [show (256 : Nat) ^ 32 = 2 ^ 256 by decide] at hn
    rw [BitVec.toNat_ofNat, Nat.mod_eq_of_lt hn']

theorem occupied_u8 : u8Codec.Occupied := Codec.occupied_uint 1 _ _

theorem strict_bool : boolCodec.Strict :=
  strict_u8.tryMap (fun value => by cases value <;> rfl) fun raw value h => by
    unfold boolOfU8 at h
    split at h
    next hzero =>
      cases h
      exact hzero.symm
    next =>
      split at h
      next hone =>
        cases h
        exact hone.symm
      next => cases h

theorem stringBytes_toByteArray (text : String) :
    (⟨(Discovery.stringBytes text).toArray⟩ : ByteArray) = text.toByteArray := by
  unfold Discovery.stringBytes
  rw [Array.toArray_toList]
  rfl

theorem strict_string : stringCodec.Strict :=
  Codec.strict_bytes.tryMap
    (fun text => by
      unfold stringOfBytes String.fromUTF8?
      rw [stringBytes_toByteArray, dif_pos text.isValidUTF8]
      rfl)
    fun raw text h => by
      unfold stringOfBytes String.fromUTF8? at h
      split at h
      next found =>
        cases h
        split at found
        next hvalid =>
          cases found
          rfl
        next => cases found
      next => cases h

namespace EthVersion

theorem toU8_of_tryFrom {n : Nat} {version : EthVersion} (h : tryFrom n = some version) :
    version.toU8 = n := by
  unfold tryFrom at h
  split at h
  all_goals first
    | cases h; rfl
    | cases h

theorem strict : codec.Strict :=
  strict_u8.tryMap (fun version => by cases version <;> rfl) fun raw version h => by
    unfold ofU8 at h
    split at h
    next found =>
      cases h
      rw [toU8_of_tryFrom found]
      simp
    next => cases h

end EthVersion

theorem strict_derived {α : Type} {fields : Codec α} (h : fields.Strict) :
    (derived fields).Strict := h.sized

theorem occupied_derived {α : Type} (fields : Codec α) : (derived fields).Occupied :=
  Codec.occupied_sized _ fields

theorem Capability.strict : codec.Strict :=
  strict_derived ((strict_string.pair strict_u64).map (fun _ => rfl) fun _ => rfl)

theorem RequestPair.strict {T : Type} {message : Codec T} (h : message.Strict) :
    (RequestPair.codec message).Strict :=
  ((strict_u64.pair h).map (fun _ => rfl) fun _ => rfl).sized

namespace Wire

/-! ## Messages -/

theorem Hello.strict : codec.Strict :=
  strict_derived ((strict_u64.pair (strict_string.pair
    ((Capability.strict.vec (occupied_derived _)).pair
      (strict_u16.pair (Codec.strict_fixed (by decide)))))).map (fun _ => rfl) fun _ => rfl)

theorem strict_emptyList : emptyList.Strict := strict_derived Codec.strict_nothing

theorem ForkId.strict : codec.Strict :=
  strict_derived (((Codec.strict_fixed (by decide)).pair strict_u64).map (fun _ => rfl)
    fun _ => rfl)

theorem Status.strict : codec.Strict :=
  strict_derived ((EthVersion.strict.pair (strict_u64.pair (strict_u256.pair (strict_b256.pair
    (strict_b256.pair ForkId.strict))))).map (fun _ => rfl) fun _ => rfl)

theorem StatusEth69.strict : codec.Strict :=
  strict_derived ((EthVersion.strict.pair (strict_u64.pair (strict_b256.pair
    (ForkId.strict.pair (strict_u64.pair (strict_u64.pair strict_b256)))))).map (fun _ => rfl)
      fun _ => rfl)

theorem BlockHashAndNumber.strict : codec.Strict :=
  strict_derived ((strict_b256.pair strict_u64).map (fun _ => rfl) fun _ => rfl)

namespace BlockHashOrNumber

theorem encode_hash (blockHash : B256) :
    codec.encode (.hash blockHash) = 0xa0 :: blockHash.bytes := by
  change encodeBytes blockHash.bytes = _
  have hlength := blockHash.length_eq
  rw [encodeBytes_of_length_ne_one (by omega), hlength]
  rfl

/-- No number is as long as a hash. -/
theorem head_encode_number (number : UInt64) :
    ∃ first rest, codec.encode (.number number) = first :: rest ∧ first ≠ 0xa0 := by
  change ∃ first rest, encodeBytes (uintBytes 8 number.toNat) = first :: rest ∧ _
  have hlength := length_uintBytes_le 8 number.toNat
  generalize uintBytes 8 number.toNat = bytes at hlength
  by_cases hone : bytes.length = 1
  · obtain ⟨b, rfl⟩ := List.length_eq_one_iff.mp hone
    unfold encodeBytes
    split
    next heq =>
      cases heq
      split
      next hb =>
        refine ⟨b, [], rfl, fun h => ?_⟩
        rw [h] at hb
        exact absurd hb (by decide)
      next => exact ⟨_, _, rfl, by decide⟩
    next heq => exact absurd rfl (heq b)
  · rw [encodeBytes_of_length_ne_one hone]
    unfold Header.encode
    rw [if_pos (by dsimp only; omega)]
    refine ⟨_, bytes, rfl, fun h => ?_⟩
    have hnat := congrArg UInt8.toNat h
    simp only [Bool.false_eq_true, if_false] at hnat
    rw [toNat_add_ofNat (by simp; omega)] at hnat
    simp at hnat
    omega

theorem decode_cons (first : UInt8) (rest : Bytes) :
    codec.decode (first :: rest) = if first = 0xa0 then
      match b256Codec.decode (first :: rest) with
      | .ok (blockHash, rest) => .ok (.hash blockHash, rest)
      | .error _ => decodeNumber (first :: rest)
    else decodeNumber (first :: rest) := rfl

theorem roundTrips (block : BlockHashOrNumber) (hfits : codec.Fits block) :
    codec.RoundTrips block where
  reads := by
    intro rest
    cases block with
    | hash blockHash =>
        have hblock : b256Codec.RoundTrips blockHash := strict_b256.roundTrips hfits
        have hread := hblock.reads rest
        have hencode : b256Codec.encode blockHash = 0xa0 :: blockHash.bytes :=
          encode_hash blockHash
        rw [encode_hash, List.cons_append, decode_cons, if_pos rfl]
        rw [hencode, List.cons_append] at hread
        rw [hread]
    | number number =>
        have hblock : u64Codec.RoundTrips number := strict_u64.roundTrips hfits
        have hread := hblock.reads rest
        obtain ⟨first, tail, hencode, hne⟩ := head_encode_number number
        have hencode' : u64Codec.encode number = first :: tail := hencode
        rw [hencode, List.cons_append, decode_cons, if_neg hne]
        rw [hencode', List.cons_append] at hread
        unfold decodeNumber
        rw [hread]
        rfl
  length_eq := by
    cases block with
    | hash blockHash => exact strict_b256.length_eq blockHash
    | number number => exact strict_u64.length_eq number

theorem eq_append_of_decodeNumber {buf rest : Bytes} {block : BlockHashOrNumber}
    (h : decodeNumber buf = .ok (block, rest)) : buf = codec.encode block ++ rest := by
  obtain ⟨⟨number, after⟩, hnumber, hblock⟩ := Codec.exists_of_map_ok h
  cases hblock
  exact strict_u64.eq_append hnumber

theorem decodeNumber_ne_panic (buf : Bytes) : decodeNumber buf ≠ .error .panic :=
  fun hpanic => strict_u64.neverPanics buf (Codec.panic_of_map hpanic)

theorem strict : codec.Strict where
  roundTrips hfits := roundTrips _ hfits
  eq_append := by
    intro buf block rest hread
    cases buf with
    | nil => cases hread
    | cons first tail =>
        rw [decode_cons] at hread
        split at hread
        next =>
          split at hread
          next blockHash rest' hhash =>
            cases hread
            exact strict_b256.eq_append hhash
          next => exact eq_append_of_decodeNumber hread
        next => exact eq_append_of_decodeNumber hread
  length_eq block := by
    cases block with
    | hash blockHash => exact strict_b256.length_eq blockHash
    | number number => exact strict_u64.length_eq number
  neverPanics := by
    intro buf hpanic
    cases buf with
    | nil => cases hpanic
    | cons first tail =>
        rw [decode_cons] at hpanic
        split at hpanic
        next =>
          split at hpanic
          next => cases hpanic
          next => exact decodeNumber_ne_panic _ hpanic
        next => exact decodeNumber_ne_panic _ hpanic

end BlockHashOrNumber

theorem GetBlockHeaders.strict : codec.Strict :=
  strict_derived ((BlockHashOrNumber.strict.pair (strict_u64.pair
    (strict_u64.pair strict_bool))).map (fun _ => rfl) fun _ => rfl)

theorem BlockRangeUpdate.strict : codec.Strict :=
  strict_derived ((strict_u64.pair (strict_u64.pair strict_b256)).map (fun _ => rfl)
    fun _ => rfl)

theorem NewPooledTransactionHashes.strict : codec.Strict :=
  strict_derived ((Codec.strict_bytes.pair ((strict_u64.vec occupied_u64).pair
    (strict_b256.vec occupied_b256))).map (fun _ => rfl) fun _ => rfl)

namespace SnapMessageId

/-- The numbers are small enough for the width not to show. -/
theorem codec_eq : codec = u8Codec.tryMap toU8 ofU8 := by
  unfold codec Codec.tryMap
  congr 1
  · ext id : 1
    cases id <;> rfl
  · ext id : 1
    cases id <;> rfl

theorem strict : codec.Strict := by
  rw [codec_eq]
  apply strict_u8.tryMap
  · intro id
    cases id <;> rfl
  · intro raw id h
    unfold ofU8 at h
    split at h
    all_goals first
      | next hraw => cases h; exact (UInt8.toNat_inj.mp hraw).symm
      | cases h

end SnapMessageId

theorem GetAccountRange.strict : codec.Strict :=
  strict_derived ((strict_u64.pair (strict_b256.pair (strict_b256.pair
    (strict_b256.pair strict_u64)))).map (fun _ => rfl) fun _ => rfl)

theorem AccountData.strict : codec.Strict :=
  strict_derived ((strict_b256.pair Codec.strict_bytes).map (fun _ => rfl) fun _ => rfl)

theorem strict_byteStrings : Codec.bytes.vec.Strict :=
  Codec.strict_bytes.vec Codec.occupied_bytes

theorem AccountRange.strict : codec.Strict :=
  strict_derived ((strict_u64.pair ((AccountData.strict.vec (occupied_derived _)).pair
    strict_byteStrings)).map (fun _ => rfl) fun _ => rfl)

theorem GetStorageRanges.strict : codec.Strict :=
  strict_derived ((strict_u64.pair (strict_b256.pair ((strict_b256.vec occupied_b256).pair
    (Codec.strict_bytes.pair (Codec.strict_bytes.pair strict_u64))))).map (fun _ => rfl)
      fun _ => rfl)

theorem SlotData.strict : codec.Strict :=
  strict_derived ((strict_b256.pair Codec.strict_bytes).map (fun _ => rfl) fun _ => rfl)

theorem StorageRanges.strict : codec.Strict :=
  strict_derived ((strict_u64.pair (((SlotData.strict.vec (occupied_derived _)).vec
    (Codec.occupied_vec _)).pair strict_byteStrings)).map (fun _ => rfl) fun _ => rfl)

theorem GetByteCodes.strict : codec.Strict :=
  strict_derived ((strict_u64.pair ((strict_b256.vec occupied_b256).pair strict_u64)).map
    (fun _ => rfl) fun _ => rfl)

theorem ByteCodes.strict : codec.Strict :=
  strict_derived ((strict_u64.pair strict_byteStrings).map (fun _ => rfl) fun _ => rfl)

theorem GetTrieNodes.strict : codec.Strict :=
  strict_derived ((strict_u64.pair (strict_b256.pair
    ((strict_byteStrings.vec (Codec.occupied_vec _)).pair strict_u64))).map (fun _ => rfl)
      fun _ => rfl)

theorem TrieNodes.strict : codec.Strict :=
  strict_derived ((strict_u64.pair strict_byteStrings).map (fun _ => rfl) fun _ => rfl)

/-! ## All kinds -/

theorem Format.strict (format : Format) : format.codec.Strict := by
  induction format with
  | hello => exact Hello.strict
  | ping => exact strict_emptyList
  | pong => exact strict_emptyList
  | status => exact Status.strict
  | statusEth69 => exact StatusEth69.strict
  | newBlockHashes => exact BlockHashAndNumber.strict.vec (occupied_derived _)
  | getBlockHeaders => exact GetBlockHeaders.strict
  | getBlockBodies => exact strict_b256.vec occupied_b256
  | newPooledTransactionHashes => exact NewPooledTransactionHashes.strict
  | newPooledTransactionHashes66 => exact strict_b256.vec occupied_b256
  | getPooledTransactions => exact strict_b256.vec occupied_b256
  | getReceipts => exact strict_b256.vec occupied_b256
  | getNodeData => exact strict_b256.vec occupied_b256
  | nodeData => exact strict_byteStrings
  | blockRangeUpdate => exact BlockRangeUpdate.strict
  | snapMessageId => exact SnapMessageId.strict
  | getAccountRange => exact GetAccountRange.strict
  | accountRange => exact AccountRange.strict
  | getStorageRanges => exact GetStorageRanges.strict
  | storageRanges => exact StorageRanges.strict
  | getByteCodes => exact GetByteCodes.strict
  | byteCodes => exact ByteCodes.strict
  | getTrieNodes => exact GetTrieNodes.strict
  | trieNodes => exact TrieNodes.strict
  | requestPair message ih => exact RequestPair.strict ih

namespace DisconnectReason

theorem decode_cons (first : UInt8) (tail : Bytes) :
    codec.decode (first :: tail) = if 0x80 ≤ first.toNat then
      refuse (Header.decode (first :: tail)) >>= fun read =>
        if !read.1.list then .error (.refused .unexpectedString)
        else if read.1.payloadLength = 0 then .ok (.disconnectRequested, read.2)
        else decodeCode read.2
    else decodeCode (first :: tail) := rfl

theorem ofU64_toU8 (reason : DisconnectReason) : ofU64 reason.toU8.toNat = reason := by
  cases reason <;> rfl

theorem encode_eq (reason : DisconnectReason) :
    codec.encode reason = Header.encode ⟨true, (u8Codec.encode reason.toU8).length⟩ ++
      u8Codec.encode reason.toU8 := by
  cases reason <;> rfl

theorem roundTrips (reason : DisconnectReason) (rest : Bytes) :
    codec.decode (codec.encode reason ++ rest) = .ok (reason, rest) := by
  obtain ⟨first, tail, hencode, hlist⟩ :
      ∃ first tail, codec.encode reason = first :: tail ∧ 0x80 ≤ first.toNat := by
    cases reason <;> exact ⟨_, _, rfl, by decide⟩
  have hlength : (u8Codec.encode reason.toU8).length < 2 ^ 63 ∧
      (u8Codec.encode reason.toU8).length ≠ 0 := by
    cases reason <;> decide
  have hheader : refuse (Header.decode (first :: (tail ++ rest))) =
      .ok (⟨true, (u8Codec.encode reason.toU8).length⟩,
        u8Codec.encode reason.toU8 ++ rest) := by
    rw [← List.cons_append, ← hencode, encode_eq, List.append_assoc]
    exact Codec.decode_header rfl (by omega) rest
  have hreason : u8Codec.RoundTrips reason.toU8 := strict_u8.roundTrips hlength.1
  have hcode := hreason.reads rest
  rw [hencode, List.cons_append, decode_cons, if_pos hlist, hheader]
  change (if _ = 0 then _ else decodeCode (u8Codec.encode reason.toU8 ++ rest)) = _
  rw [if_neg hlength.2]
  unfold decodeCode
  rw [hcode]
  change Except.ok (ofU64 reason.toU8.toNat, rest) = _
  rw [ofU64_toU8]

/-- The code alone is understood as well, but not the code zero. -/
example : codec.decode [0x04] = .ok (.tooManyPeers, []) ∧
    codec.decode (u8Codec.encode 0) = .error (.refused .unexpectedString) := ⟨rfl, rfl⟩

end DisconnectReason

end Wire

end P2p

end WasixEth
