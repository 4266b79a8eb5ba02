import WasixEth.Lib.Aes128
import WasixEth.Lib.Sha256
import WasixEth.Lib.StrictCodec
import WasixEth.P2p.Frame

/-! # The packets of the key exchange

The two packets that open a connection are encrypted for the static key of the
other side, under a key that the sender makes up for the occasion. Inside is a
list whose fields are followed by padding; fields of later versions may stand
behind the known ones. The curve, the hash function and the block cipher are
instance arguments.
-/

namespace WasixEth

open Rlp

/-- secp256k1, as the client uses it. -/
class Secp256k1 (SecretKey PublicKey : outParam Type) where
  publicKey : SecretKey → PublicKey
  /-- `to_encoded_point(false)`, without the byte in front. -/
  coordinates : PublicKey → FixedBytes 64
  /-- `PublicKey::from_sec1_bytes`. -/
  fromSec1Bytes : Bytes → Except String PublicKey
  /-- `diffie_hellman`, as raw bytes. -/
  diffieHellman : SecretKey → PublicKey → B256
  /-- The signature and the recovery id. -/
  signPrehashRecoverable : SecretKey → B256 → Except String (FixedBytes 64 × Nat)
  /-- `Signature::from_slice`. -/
  signatureFromSlice : FixedBytes 64 → Except String Unit
  /-- `VerifyingKey::recover_from_prehash`. -/
  recoverFromPrehash : B256 → FixedBytes 64 → Nat → Except String PublicKey

/-- SHA-256 and the keyed hash built on it. -/
class Sha256Hash where
  sha256 : Bytes → B256
  hmacSha256 : Bytes → Bytes → B256

export Sha256Hash (sha256 hmacSha256)

@[reducible] def sha256Hash : Sha256Hash where
  sha256 bytes := ⟨(Sha256.digest bytes).1, (Sha256.digest bytes).2⟩
  hmacSha256 key bytes := ⟨(Sha256.hmac key bytes).1, (Sha256.hmac key bytes).2⟩

class Aes128Ctr where
  /-- The key stream of `Ctr128BE<Aes128>` for a key and the first counter. -/
  keystream128 : Bytes → Bytes → Nat → UInt8

export Aes128Ctr (keystream128)

@[reducible] def aes128Ctr : Aes128Ctr where
  keystream128 := Aes128.keystream

/-! ## Encryption -/

section Encryption

variable {SecretKey PublicKey : Type} [Secp256k1 SecretKey PublicKey] [Sha256Hash] [Aes128Ctr]

open Secp256k1

/-- Blocks of hashes, counted from one, as many as the output takes. -/
def kdf (secret s1 : Bytes) (outputLength : Nat) : Bytes :=
  ((List.range' 1 ((outputLength + 31) / 32)).flatMap fun counter =>
    (sha256 (beBytes 4 counter ++ (secret ++ s1))).bytes).take outputLength

/-- An uncompressed point. -/
def sec1Bytes (key : PublicKey) : Bytes := 0x04 :: (coordinates key).bytes

/-- The key of the cipher and the key of the tag. -/
def encKey (sharedSecret : B256) : Bytes := (kdf sharedSecret.bytes [] 32).take 16

def macKey (sharedSecret : B256) : B256 := sha256 ((kdf sharedSecret.bytes [] 32).drop 16)

def eciesTag (sharedSecret : B256) (iv cipherText s2 : Bytes) : Bytes :=
  (hmacSha256 (macKey sharedSecret).bytes (iv ++ (cipherText ++ s2))).bytes

/-- `iv` is what the random number generator returns. -/
def eciesEncrypt (remotePub : PublicKey) (data : Bytes) (ephemeralSk : SecretKey)
    (iv : Except String (FixedBytes 16)) : Except String Bytes := do
  let sharedSecret := diffieHellman ephemeralSk remotePub
  let iv ← iv.mapError fun e => s!"getrandom error: {e}"
  -- The size is cast to 16 bits.
  let s2 := beBytes 2 ((65 + 16 + data.length + 32) % 2 ^ 16)
  let cipherText := Keystream.apply (keystream128 (encKey sharedSecret) iv.bytes) 0 data
  let tag := eciesTag sharedSecret iv.bytes cipherText s2
  return s2 ++ (sec1Bytes (publicKey ephemeralSk) ++ (iv.bytes ++ (cipherText ++ tag)))

def eciesDecrypt (localSk : SecretKey) (data s2 : Bytes) : Except String Bytes :=
  if data.length < 65 + 16 + 32 then .error "Data too short for ECIES"
  else
    match fromSec1Bytes (data.take 65) with
    | .error e => .error e
    | .ok ephemeralPk =>
        let iv := (data.drop 65).take 16
        let tag := data.drop (data.length - 32)
        let cipherText := (data.drop 81).take (data.length - 113)
        let sharedSecret := diffieHellman localSk ephemeralPk
        if eciesTag sharedSecret iv cipherText s2 ≠ tag then .error "ECIES MAC tag mismatch"
        else .ok (Keystream.apply (keystream128 (encKey sharedSecret) iv) 0 cipherText)

def b512ToPubkey (id : FixedBytes 64) : Except String PublicKey :=
  (fromSec1Bytes (0x04 :: id.bytes)).mapError fun e => s!"Invalid public key: {e}"

omit [Secp256k1 SecretKey PublicKey] [Sha256Hash] [Aes128Ctr] in
theorem length_take_signature (sig : FixedBytes 65) : (sig.bytes.take 64).length = 64 := by
  rw [List.length_take, sig.length_eq]
  rfl

def recoverPubkey (sig : FixedBytes 65) (msg : B256) : Except String PublicKey := do
  let recid := (sig.bytes.getD 64 0).toNat % 4
  let signature : FixedBytes 64 := ⟨sig.bytes.take 64, length_take_signature sig⟩
  signatureFromSlice signature
  (recoverFromPrehash msg signature recid).mapError fun e => s!"Key recovery failed: {e}"

end Encryption

/-! ## Messages -/

namespace Rlp.Codec

variable {α : Type}

/-- A value at the front of the payload of an item. What stands behind it there is
skipped, and the kind of the item is not looked at. -/
def extensible (codec : Codec α) : Codec α where
  encode := codec.listed.encode
  decode buf := do
    let (h, buf) ← refuse (Header.decode buf)
    let (inner, rest) ← splitAt buf h.payloadLength
    let (value, _) ← codec.decode inner
    return (value, rest)
  length := codec.listed.length

end Rlp.Codec

structure AuthMsgV4 where
  signature : FixedBytes 65
  initiatorPubkey : FixedBytes 64
  nonce : B256
  version : UInt64
  deriving DecidableEq

structure AuthAckV4 where
  recipientEphemeralPubkey : FixedBytes 64
  nonce : B256
  version : UInt64
  deriving DecidableEq

theorem length_raw (raw : FixedBytes 32) : raw.bytes.length = 32 := raw.length_eq

/-- A hash as an RLP string. -/
def b256Codec : Codec B256 :=
  (Codec.fixed 32).map (fun value => ⟨value.bytes, value.length_eq⟩)
    fun raw => ⟨raw.bytes, length_raw raw⟩

def u64Codec : Codec UInt64 := (Codec.uint 8).map UInt64.toNat UInt64.ofNat

def AuthMsgV4.fields : Codec AuthMsgV4 :=
  ((Codec.fixed 65).pair ((Codec.fixed 64).pair (b256Codec.pair u64Codec))).map
    (fun msg => (msg.signature, msg.initiatorPubkey, msg.nonce, msg.version))
    fun raw => ⟨raw.1, raw.2.1, raw.2.2.1, raw.2.2.2⟩

def AuthMsgV4.codec : Codec AuthMsgV4 := AuthMsgV4.fields.extensible

def AuthAckV4.fields : Codec AuthAckV4 :=
  ((Codec.fixed 64).pair (b256Codec.pair u64Codec)).map
    (fun msg => (msg.recipientEphemeralPubkey, msg.nonce, msg.version))
    fun raw => ⟨raw.1, raw.2.1, raw.2.2⟩

def AuthAckV4.codec : Codec AuthAckV4 := AuthAckV4.fields.extensible

/-! ## What is encrypted can be decrypted -/

/-- Both ways to a shared secret lead to the same one, points and signatures are read
back as they were written. -/
class LawfulSecp256k1 (SecretKey PublicKey : outParam Type) [Secp256k1 SecretKey PublicKey] :
    Prop where
  diffieHellman_comm : ∀ a b : SecretKey, Secp256k1.diffieHellman a (Secp256k1.publicKey b) =
    Secp256k1.diffieHellman b (Secp256k1.publicKey a)
  fromSec1Bytes_sec1Bytes : ∀ key : SecretKey,
    Secp256k1.fromSec1Bytes (sec1Bytes (Secp256k1.publicKey key)) = .ok (Secp256k1.publicKey key)
  recover : ∀ (key : SecretKey) (msg : B256) (signature : FixedBytes 64) (id : Nat),
    Secp256k1.signPrehashRecoverable key msg = .ok (signature, id) →
      id < 4 ∧ Secp256k1.signatureFromSlice signature = .ok () ∧
        Secp256k1.recoverFromPrehash msg signature id = .ok (Secp256k1.publicKey key)

section Decryption

variable {SecretKey PublicKey : Type} [Secp256k1 SecretKey PublicKey] [Sha256Hash] [Aes128Ctr]
  {localSk ephemeralSk : SecretKey} {data packet : Bytes} {iv : FixedBytes 16}

open Secp256k1

omit [Sha256Hash] [Aes128Ctr] in
theorem length_sec1Bytes (key : PublicKey) : (sec1Bytes key).length = 65 := by
  rw [sec1Bytes, List.length_cons, (coordinates key).length_eq]

/-- The parts of a packet. -/
theorem eciesEncrypt_eq (remotePub : PublicKey)
    (h : eciesEncrypt remotePub data ephemeralSk (.ok iv) = .ok packet) :
    ∃ cipherText, cipherText = Keystream.apply
        (keystream128 (encKey (diffieHellman ephemeralSk remotePub)) iv.bytes) 0 data ∧
      packet.take 2 = beBytes 2 ((113 + data.length) % 2 ^ 16) ∧
      packet.drop 2 = sec1Bytes (publicKey ephemeralSk) ++ (iv.bytes ++ (cipherText ++
        eciesTag (diffieHellman ephemeralSk remotePub) iv.bytes cipherText (packet.take 2))) := by
  cases h
  have hsize : 65 + 16 + data.length + 32 = 113 + data.length := by omega
  have hlength := length_beBytes 2 ((113 + data.length) % 2 ^ 16)
  rw [hsize]
  refine ⟨_, rfl, List.take_left' hlength, ?_⟩
  rw [List.drop_left' hlength, List.take_left' hlength]

/-- The bytes behind the announced size. -/
theorem length_drop_packet (remotePub : PublicKey)
    (h : eciesEncrypt remotePub data ephemeralSk (.ok iv) = .ok packet) :
    (packet.drop 2).length = 113 + data.length := by
  obtain ⟨cipherText, rfl, -, hdrop⟩ := eciesEncrypt_eq remotePub h
  rw [hdrop, eciesTag]
  simp only [List.length_append, length_sec1Bytes, iv.length_eq, Keystream.length_apply,
    B256.length_eq]
  omega

theorem fromBytes_take_packet (remotePub : PublicKey)
    (h : eciesEncrypt remotePub data ephemeralSk (.ok iv) = .ok packet) :
    fromBytes (packet.take 2) = (113 + data.length) % 2 ^ 16 := by
  obtain ⟨-, -, htake, -⟩ := eciesEncrypt_eq remotePub h
  rw [htake, fromBytes, foldl_beBytes]
  omega

/-- The owner of the key reads what was encrypted for it. -/
theorem eciesDecrypt_packet [LawfulSecp256k1 SecretKey PublicKey]
    (h : eciesEncrypt (publicKey localSk) data ephemeralSk (.ok iv) = .ok packet) :
    eciesDecrypt localSk (packet.drop 2) (packet.take 2) = .ok data := by
  have hlength := length_drop_packet _ h
  obtain ⟨cipherText, hcipher, -, hdrop⟩ := eciesEncrypt_eq _ h
  have hpoint := length_sec1Bytes (publicKey ephemeralSk)
  have hcipherLength : cipherText.length = data.length := by
    rw [hcipher, Keystream.length_apply]
  generalize hshared : diffieHellman ephemeralSk (publicKey localSk) = sharedSecret at hcipher hdrop
  generalize htag : eciesTag sharedSecret iv.bytes cipherText (packet.take 2) = tag at hdrop
  have hpointRead : (packet.drop 2).take 65 = sec1Bytes (publicKey ephemeralSk) := by
    rw [hdrop, List.take_left' hpoint]
  have hafterPoint : (packet.drop 2).drop 65 = iv.bytes ++ (cipherText ++ tag) := by
    rw [hdrop, List.drop_left' hpoint]
  have hafterIv : (packet.drop 2).drop 81 = cipherText ++ tag := by
    rw [show 81 = 65 + 16 from rfl, ← List.drop_drop, hafterPoint, List.drop_left' iv.length_eq]
  have htagRead : (packet.drop 2).drop ((packet.drop 2).length - 32) = tag := by
    rw [hlength, show 113 + data.length - 32 = 81 + cipherText.length by omega,
      ← List.drop_drop, hafterIv, List.drop_left]
  have hcipherRead : ((packet.drop 2).drop 81).take ((packet.drop 2).length - 113) =
      cipherText := by
    rw [hafterIv, hlength, show 113 + data.length - 113 = cipherText.length by omega,
      List.take_left]
  unfold eciesDecrypt
  rw [if_neg (by omega), hpointRead, LawfulSecp256k1.fromSec1Bytes_sec1Bytes]
  dsimp only
  rw [hafterPoint, List.take_left' iv.length_eq, htagRead, hcipherRead,
    LawfulSecp256k1.diffieHellman_comm, hshared, htag, if_neg (not_not_intro rfl), hcipher,
    Keystream.apply_apply]

/-- What is decrypted has lost a point, a vector and a tag. -/
theorem length_of_eciesDecrypt {bytes s2 : Bytes} (h : eciesDecrypt localSk bytes s2 = .ok data) :
    data.length + 113 = bytes.length := by
  unfold eciesDecrypt at h
  split at h
  next => cases h
  next hlong =>
    split at h
    next => cases h
    next =>
      dsimp only at h
      split at h
      next => cases h
      next =>
        cases h
        rw [Keystream.length_apply, List.length_take, List.length_drop]
        omega

/-- What the reader of a packet takes from the stream: the announced size, and as many
bytes. -/
def readBack (localSk : SecretKey) (packet : Bytes) : Except String Bytes :=
  eciesDecrypt localSk ((packet.drop 2).take (fromBytes (packet.take 2))) (packet.take 2)

/-- A packet is read back exactly if its size fits into the two bytes for it. -/
theorem readBack_iff [LawfulSecp256k1 SecretKey PublicKey]
    (h : eciesEncrypt (publicKey localSk) data ephemeralSk (.ok iv) = .ok packet) :
    readBack localSk packet = .ok data ↔ data.length + 113 < 2 ^ 16 := by
  have hlength := length_drop_packet _ h
  have hannounced := fromBytes_take_packet _ h
  unfold readBack
  rw [hannounced]
  constructor
  · intro hread
    have hsize := length_of_eciesDecrypt hread
    rw [List.length_take] at hsize
    omega
  · intro hsize
    rw [List.take_of_length_le (by omega)]
    exact eciesDecrypt_packet h

end Decryption

/-! ## What a later version sends -/

theorem Rlp.Header.payloadLength_le {buf after : Bytes} {h : Rlp.Header}
    (hdecode : Rlp.Header.decode buf = .ok (h, after)) : h.payloadLength ≤ after.length := by
  unfold Rlp.Header.decode at hdecode
  split at hdecode
  next => cases hdecode
  next =>
    split at hdecode
    next => cases hdecode
    next hlong =>
      cases hdecode
      exact Nat.le_of_not_lt hlong

namespace Rlp.Codec

variable {α β : Type} {codec : Codec α} {value : α}

/-- Fields of a later version and padding do not matter. -/
theorem extensible_reads (h : codec.RoundTrips value) (extra rest : Bytes)
    (hsize : (codec.encode value ++ extra).length < 2 ^ 64) :
    codec.extensible.decode (encodeList (codec.encode value ++ extra) ++ rest) =
      .ok (value, rest) := by
  unfold extensible encodeList
  dsimp only
  rw [List.append_assoc, decode_header rfl hsize]
  change (splitAt ((codec.encode value ++ extra) ++ rest) _ >>= _) = _
  rw [splitAt_append rfl]
  change (codec.decode (codec.encode value ++ extra) >>= _) = _
  rw [h.reads extra]
  rfl

/-- Whatever arrives, reading it does not stop the program. -/
def NeverPanics (codec : Codec α) : Prop := ∀ buf, codec.decode buf ≠ .error .panic

theorem neverPanics_fixed (n : Nat) : (fixed n).NeverPanics := fun _ => refuse_ne_panic _

theorem neverPanics_uint (width : Nat) : (uint width).NeverPanics := fun _ => refuse_ne_panic _

theorem NeverPanics.map {codec : Codec β} (h : codec.NeverPanics) (toRaw : α → β)
    (ofRaw : β → α) : (codec.map toRaw ofRaw).NeverPanics :=
  fun buf hpanic => h buf (panic_of_map hpanic)

theorem NeverPanics.pair {first : Codec α} {second : Codec β} (hfirst : first.NeverPanics)
    (hsecond : second.NeverPanics) : (first.pair second).NeverPanics := by
  intro buf hpanic
  rw [decode_pair] at hpanic
  rcases panic_of_bind hpanic with hone | ⟨read, -, hpanic⟩
  · exact hfirst buf hone
  · rcases panic_of_bind hpanic with htwo | ⟨read', -, hpanic⟩
    · exact hsecond read.2 htwo
    · cases hpanic

/-- The payload lies within the buffer once its header was read. -/
theorem NeverPanics.extensible (h : codec.NeverPanics) : codec.extensible.NeverPanics := by
  intro buf hpanic
  change (refuse (Header.decode buf) >>= fun read => splitAt read.2 read.1.payloadLength >>=
    fun parts => codec.decode parts.1 >>= fun read' => Except.ok (read'.1, parts.2)) = _ at hpanic
  rcases panic_of_bind hpanic with hheader | ⟨read, hheader, hpanic⟩
  · exact refuse_ne_panic _ hheader
  · have hle := Header.payloadLength_le (exists_of_refuse_ok hheader)
    rcases panic_of_bind hpanic with hsplit | ⟨parts, -, hpanic⟩
    · unfold splitAt at hsplit
      rw [if_pos hle] at hsplit
      cases hsplit
    · rcases panic_of_bind hpanic with hvalue | ⟨read', -, hpanic⟩
      · exact h _ hvalue
      · cases hpanic

end Rlp.Codec

section Messages

theorem roundTrips_b256 (value : B256) : b256Codec.RoundTrips value :=
  (Codec.roundTrips_fixed (by decide) _).map rfl

theorem roundTrips_u64 (value : UInt64) : u64Codec.RoundTrips value :=
  (Codec.roundTrips_uint value.toNat_lt (by decide)).map (by simp)

theorem AuthMsgV4.roundTrips_fields (msg : AuthMsgV4) : fields.RoundTrips msg :=
  ((Codec.roundTrips_fixed (by decide) _).pair ((Codec.roundTrips_fixed (by decide) _).pair
    ((roundTrips_b256 _).pair (roundTrips_u64 _)))).map rfl

theorem AuthAckV4.roundTrips_fields (msg : AuthAckV4) : fields.RoundTrips msg :=
  ((Codec.roundTrips_fixed (by decide) _).pair
    ((roundTrips_b256 _).pair (roundTrips_u64 _))).map rfl

theorem neverPanics_b256 : b256Codec.NeverPanics := (Codec.neverPanics_fixed 32).map _ _

theorem neverPanics_u64 : u64Codec.NeverPanics := (Codec.neverPanics_uint 8).map _ _

theorem AuthMsgV4.neverPanics : codec.NeverPanics :=
  (((Codec.neverPanics_fixed 65).pair ((Codec.neverPanics_fixed 64).pair
    (neverPanics_b256.pair neverPanics_u64))).map _ _).extensible

theorem AuthAckV4.neverPanics : codec.NeverPanics :=
  (((Codec.neverPanics_fixed 64).pair (neverPanics_b256.pair neverPanics_u64)).map _ _).extensible

end Messages

/-! ## Four keys -/

section Sample

/-- The keys of two nodes and what each makes up for a connection. -/
inductive SampleKey where
  | initiator | initiatorEphemeral | recipient | recipientEphemeral
  deriving DecidableEq

namespace SampleKey

def all : List SampleKey := [initiator, initiatorEphemeral, recipient, recipientEphemeral]

/-- The public keys on secp256k1. -/
def point : SampleKey → Nat × Nat
  | .initiator =>
      (0xfda1cff674c90c9a197539fe3dfb53086ace64f83ed7c6eabec741f7f381cc80,
        0x3e52ab2cd55d5569bce4347107a310dfd5f88a010cd2ffd1005ca406f1842877)
  | .initiatorEphemeral =>
      (0x654d1044b69c577a44e5f01a1209523adb4026e70c62d1c13a067acabc09d266,
        0x7a49821a0ad4b634554d330a15a58fe61f8a8e0544b310c6de7b0c8da7528a8d)
  | .recipient =>
      (0xca634cae0d49acb401d8a4c6b6fe8c55b70d115bf400769cc1400f3258cd3138,
        0x7574077f301b421bc84df7266c44e9e6d569fc56be00812904767bf5ccd1fc7f)
  | .recipientEphemeral =>
      (0xb6d82fa3409da933dbf9cb0140c5dde89f4e64aec88d476af648880f4a10e1e4,
        0x9fe35ef3e69e93dd300b4797765a747c6384a6ecf5db9c2690398607a86181e4)

/-- What `diffie_hellman` returns for each two of them. -/
def sharedSecrets : List ((SampleKey × SampleKey) × Nat) :=
  [((.initiator, .initiator),
      0x8f6ef580c3e8e570c95d004ebb99d4c8b046c93628330aa6b9a5766d57618649),
    ((.initiator, .initiatorEphemeral),
      0xf7b114bdc99aa4e1f290b7839aac3812a9bb79ee7d81a4703a138c2c78e6ca37),
    ((.initiator, .recipient),
      0x2d21423c1dc3355da36e7f2c2b530eeffcf0680f93201a958b2ec3a7d04958e6),
    ((.initiator, .recipientEphemeral),
      0xf0590dfd25c24a102ab0ca10dbea01d4d51acbb1a5edf9104901cb3df46e45fc),
    ((.initiatorEphemeral, .initiatorEphemeral),
      0xa672e9dc6b2b3a5a0a45296fcfd51488350ef37d4c16315cc383dc51538144d7),
    ((.initiatorEphemeral, .recipient),
      0x3da1cbc1a54a8f16a22909e0c0a8165db6e4d8d0e0645bec0bf042dcc70a269b),
    ((.initiatorEphemeral, .recipientEphemeral),
      0x1a08ef840fa6b55e5b2630351aa45804cc16b48e526b64e6ee667b224967ef24),
    ((.recipient, .recipient),
      0xd26bf5f7102302ac33beb3cb35ef6fc4e73aca7ed3b46b3593d4f92e2ce6b1ba),
    ((.recipient, .recipientEphemeral),
      0xab422a2bd423670a5d23ff6ecc7ee1757c196a3432b475c493a5b374ef300dec),
    ((.recipientEphemeral, .recipientEphemeral),
      0x9fefae60cd1f209ae64dcf80c041e190324daa262b40265b480de80f3cd0f34a)]

/-- What the initiator signs when it opens a connection to the recipient. -/
def signed : B256 :=
  B256.ofNat 0x53b7c9860e75f0538f22a8de6a9f038b2d5c4dc866b53767ba82a98c0ac7bd30

theorem length_twoWords (first second : Nat) :
    (beBytes 32 first ++ beBytes 32 second).length = 64 := by
  rw [List.length_append, length_beBytes, length_beBytes]

def twoWords (first second : Nat) : FixedBytes 64 :=
  ⟨beBytes 32 first ++ beBytes 32 second, length_twoWords first second⟩

def signature : FixedBytes 64 :=
  twoWords 0x5ccc53a99558f46162122995719d4f3cfd840926800f8e2dce54b729327c1cbe
    0x548ed0a385998a7bc6e2c91d1ba38dd9e8013f57bc0d6efd3c566f90cfeaadcf

end SampleKey

open SampleKey in
/-- secp256k1 on the four keys and the one message. -/
@[reducible] def sampleCurve : Secp256k1 SampleKey SampleKey where
  publicKey key := key
  coordinates key := twoWords key.point.1 key.point.2
  fromSec1Bytes bytes :=
    match all.find? fun key => 0x04 :: (twoWords key.point.1 key.point.2).bytes == bytes with
    | some key => .ok key
    | none => .error "crypto error"
  diffieHellman a b :=
    B256.ofNat (((sharedSecrets.lookup (a, b)).or (sharedSecrets.lookup (b, a))).getD 0)
  signPrehashRecoverable key msg :=
    if key = .initiatorEphemeral ∧ msg = signed then .ok (signature, 0)
    else .error "signature error"
  signatureFromSlice _ := .ok ()
  recoverFromPrehash msg sig id :=
    if msg = signed ∧ sig = signature ∧ id = 0 then .ok .initiatorEphemeral
    else .error "signature error"

attribute [local instance] sampleCurve sha256Hash aes128Ctr

theorem lawful_sampleCurve : LawfulSecp256k1 SampleKey SampleKey where
  diffieHellman_comm a b := by
    cases a <;> cases b <;> decide +kernel
  fromSec1Bytes_sec1Bytes key := by
    cases key <;> decide +kernel
  recover key msg signature id hsign := by
    change (if key = SampleKey.initiatorEphemeral ∧ msg = SampleKey.signed then
      Except.ok (SampleKey.signature, 0) else .error "signature error") = _ at hsign
    split at hsign
    next hkey =>
      obtain ⟨rfl, rfl⟩ := hkey
      cases hsign
      exact ⟨by decide, rfl, if_pos ⟨rfl, rfl, rfl⟩⟩
    next => cases hsign

/-- Ten bytes for the recipient. -/
theorem readBack_sample : ∃ packet,
    eciesEncrypt (Secp256k1.publicKey SampleKey.recipient) (List.replicate 10 0)
      SampleKey.initiatorEphemeral (.ok ⟨List.replicate 16 0, rfl⟩) = .ok packet ∧
    (readBack SampleKey.recipient packet = .ok (List.replicate 10 0) ↔
      (List.replicate 10 (0 : UInt8)).length + 113 < 2 ^ 16) :=
  have := lawful_sampleCurve
  ⟨_, rfl, readBack_iff rfl⟩

end Sample

end WasixEth
