import WasixEth.P2p.ExchangeRuns

/-! # Both sides agree

An initiator that dials the key of the recipient ends up with the same secrets as the
recipient, and each knows the key of the other. What a side sends from then on, the other
side reads.
-/

namespace WasixEth.KeyExchange

open Rlp RlpxFrameCodec Secp256k1

section Exchange

variable {SecretKey PublicKey : Type} [Secp256k1 SecretKey PublicKey]

/-! ## The packets are read -/

/-- A message in front of padding. -/
theorem decode_padded {α : Type} {codec : Codec α} {value : α} (h : codec.RoundTrips value)
    (hsize : (codec.encode value).length < 2 ^ 64) (padding : Bytes) :
    orDecodeError (codec.extensible.decode (codec.extensible.encode value ++ padding)) =
      .ok (value, padding) := by
  have hread := Codec.extensible_reads h [] padding (by rwa [List.append_nil])
  have hencode : codec.extensible.encode value = encodeList (codec.encode value ++ []) := by
    change Header.encode ⟨true, codec.length value⟩ ++ codec.encode value = _
    rw [h.length_eq, List.append_nil, encodeList]
  rw [hencode, hread]
  rfl

theorem length_fields_auth (msg : AuthMsgV4) : (AuthMsgV4.fields.encode msg).length < 220 := by
  have hsignature := bytesLength_le msg.signature.bytes
  have hpubkey := bytesLength_le msg.initiatorPubkey.bytes
  have hnonce := bytesLength_le msg.nonce.bytes
  have hversion := bytesLength_le (uintBytes 8 msg.version.toNat)
  have hwidth := length_uintBytes_le 8 msg.version.toNat
  rw [msg.signature.length_eq] at hsignature
  rw [msg.initiatorPubkey.length_eq] at hpubkey
  rw [msg.nonce.length_eq] at hnonce
  change (encodeBytes msg.signature.bytes ++ (encodeBytes msg.initiatorPubkey.bytes ++
    (encodeBytes msg.nonce.bytes ++ encodeBytes (uintBytes 8 msg.version.toNat)))).length < 220
  simp only [List.length_append, length_encodeBytes]
  omega

theorem length_fields_ack (msg : AuthAckV4) : (AuthAckV4.fields.encode msg).length < 220 := by
  have hpubkey := bytesLength_le msg.recipientEphemeralPubkey.bytes
  have hnonce := bytesLength_le msg.nonce.bytes
  have hversion := bytesLength_le (uintBytes 8 msg.version.toNat)
  have hwidth := length_uintBytes_le 8 msg.version.toNat
  rw [msg.recipientEphemeralPubkey.length_eq] at hpubkey
  rw [msg.nonce.length_eq] at hnonce
  change (encodeBytes msg.recipientEphemeralPubkey.bytes ++ (encodeBytes msg.nonce.bytes ++
    encodeBytes (uintBytes 8 msg.version.toNat))).length < 220
  simp only [List.length_append, length_encodeBytes]
  omega

/-- A message with its header and padding fits into a packet. -/
theorem length_body {α : Type} {codec : Codec α} {value : α} (h : codec.RoundTrips value)
    (hsize : (codec.encode value).length < 220) {padding : Nat} (hpadding : padding < 300) :
    (codec.extensible.encode value ++ List.replicate padding 0).length + 113 < 2 ^ 16 := by
  have hheader := lengthOfLength_le (codec.length value)
  have hencode : (codec.extensible.encode value).length =
      lengthOfLength (codec.length value) + codec.length value :=
    Codec.length_header_append h.length_eq.symm
  rw [List.length_append, List.length_replicate, hencode, h.length_eq]
  rw [h.length_eq] at hheader
  omega

theorem b512ToPubkey_coordinates [LawfulSecp256k1 SecretKey PublicKey] (key : SecretKey) :
    b512ToPubkey (coordinates (publicKey key)) = .ok (publicKey key) := by
  unfold b512ToPubkey
  rw [show 0x04 :: (coordinates (publicKey key)).bytes = sec1Bytes (publicKey key) from rfl,
    LawfulSecp256k1.fromSec1Bytes_sec1Bytes]
  rfl

theorem recoverPubkey_sigBytes [LawfulSecp256k1 SecretKey PublicKey] {key : SecretKey}
    {msg : B256} {signature : FixedBytes 64} {id : Nat}
    (h : signPrehashRecoverable key msg = .ok (signature, id)) :
    recoverPubkey (sigBytes signature id) msg = .ok (publicKey key) := by
  obtain ⟨hid, hslice, hrecover⟩ := LawfulSecp256k1.recover key msg signature id h
  have hbyte : ((sigBytes signature id).bytes.getD 64 0).toNat % 4 = id := by
    unfold sigBytes
    dsimp only
    rw [List.getD_eq_getElem?_getD, ← List.head?_drop, List.drop_left' signature.length_eq,
      List.head?_cons, Option.getD_some, UInt8.toNat_ofNat']
    omega
  have htake : (⟨(sigBytes signature id).bytes.take 64, length_take_signature _⟩ :
      FixedBytes 64) = signature := by
    obtain ⟨bytes, hlength⟩ := signature
    simp only [sigBytes, List.take_left' hlength]
  unfold recoverPubkey
  dsimp only
  rw [htake, hbyte, hslice, hrecover]
  rfl

variable [Sha256Hash] [Aes128Ctr]

/-- An encrypted body whose size fits, as the reader takes it from the stream. -/
structure Sealed (localSk : SecretKey) (body packet : Bytes) : Prop where
  length_packet : 2 ≤ packet.length
  announced : fromBytes (packet.take 2) = (packet.drop 2).length
  opens : eciesDecrypt localSk (packet.drop 2) (packet.take 2) = .ok body

theorem sealed_of_encrypt [LawfulSecp256k1 SecretKey PublicKey] {localSk ephemeralSk : SecretKey}
    {body packet : Bytes} {iv : FixedBytes 16}
    (h : eciesEncrypt (publicKey localSk) body ephemeralSk (.ok iv) = .ok packet)
    (hsize : body.length + 113 < 2 ^ 16) : Sealed localSk body packet where
  length_packet := by
    have hlength := length_drop_packet _ h
    rw [List.length_drop] at hlength
    omega
  announced := by
    rw [fromBytes_take_packet _ h, length_drop_packet _ h]
    omega
  opens := eciesDecrypt_packet h

/-! ## An honest exchange -/

variable [Keccak256] {setup : Setup SecretKey PublicKey} {auth : Bytes}

/-- Each side has the secrets of the other and knows its key. -/
structure Agree (setup : Setup SecretKey PublicKey) (initiator recipient : Established) :
    Prop where
  aes : initiator.secrets.aesSecret = recipient.secrets.aesSecret
  mac : initiator.secrets.macSecret = recipient.secrets.macSecret
  egress : initiator.secrets.egressMacInitData = recipient.secrets.ingressMacInitData
  ingress : initiator.secrets.ingressMacInitData = recipient.secrets.egressMacInitData
  dialled : initiator.remoteId = coordinates (publicKey setup.recipient.localSk)
  dialling : recipient.remoteId = coordinates (publicKey setup.initiator.localSk)

/-- The secrets of a side, in terms of what both sides contributed. -/
def secretsOf (setup : Setup SecretKey PublicKey) (packet : Bool → Bytes) (side : Bool) :
    HandshakeSecrets :=
  deriveSessionSecrets side setup.initiator.draws.nonce setup.recipient.draws.nonce
    (diffieHellman setup.initiator.draws.ephemeralSk
      (publicKey setup.recipient.draws.ephemeralSk)).bytes (packet true) (packet false)

/-- The initiator dials the recipient, and whatever is drawn and signed is there. -/
structure Honest (setup : Setup SecretKey PublicKey) : Prop where
  remotePk : setup.remotePk = some (publicKey setup.recipient.localSk)
  initiatorIv : ∃ iv, setup.initiator.draws.iv = .ok iv
  recipientIv : ∃ iv, setup.recipient.draws.iv = .ok iv
  signs : ∃ signature id, signPrehashRecoverable setup.initiator.draws.ephemeralSk
    (msgToSign (diffieHellman setup.initiator.localSk (publicKey setup.recipient.localSk))
      setup.initiator.draws.nonce) = .ok (signature, id)

omit [Keccak256] in
/-- The packet of the initiator as the recipient reads it. -/
theorem exists_auth [LawfulSecp256k1 SecretKey PublicKey] (h : Honest setup) :
    ∃ (packet : Bytes) (authMsg : AuthMsgV4),
      prepareAuth setup.initiator setup.remotePk = .ok packet ∧
      Sealed setup.recipient.localSk (AuthMsgV4.codec.encode authMsg ++
        List.replicate setup.initiator.draws.padding 0) packet ∧
      authMsg.initiatorPubkey = coordinates (publicKey setup.initiator.localSk) ∧
      authMsg.nonce = setup.initiator.draws.nonce ∧
      recoverPubkey authMsg.signature (msgToSign (diffieHellman setup.recipient.localSk
        (publicKey setup.initiator.localSk)) authMsg.nonce) =
          .ok (publicKey setup.initiator.draws.ephemeralSk) := by
  obtain ⟨iv, hiv⟩ := h.initiatorIv
  obtain ⟨signature, id, hsign⟩ := h.signs
  let authMsg : AuthMsgV4 :=
    { signature := sigBytes signature id
      initiatorPubkey := coordinates (publicKey setup.initiator.localSk)
      nonce := setup.initiator.draws.nonce
      version := 4 }
  have hbody := length_body authMsg.roundTrips_fields (length_fields_auth authMsg)
    setup.initiator.draws.padding_range.2
  obtain ⟨packet, hpacket⟩ : ∃ packet, eciesEncrypt (publicKey setup.recipient.localSk)
      (AuthMsgV4.codec.encode authMsg ++ List.replicate setup.initiator.draws.padding 0)
      setup.initiator.draws.ephemeralSk (.ok iv) = .ok packet := ⟨_, rfl⟩
  refine ⟨packet, authMsg, ?_, sealed_of_encrypt hpacket hbody, rfl, rfl, ?_⟩
  · unfold prepareAuth
    rw [h.remotePk]
    dsimp only
    rw [hsign, hiv]
    exact congrArg orError hpacket
  · rw [LawfulSecp256k1.diffieHellman_comm]
    exact recoverPubkey_sigBytes hsign

/-- An honest exchange goes through, and both sides derive their secrets from the same. -/
theorem exists_exchange [LawfulSecp256k1 SecretKey PublicKey] (h : Honest setup) :
    ∃ x : Exchange setup, (∀ side, (x.session side).secrets = secretsOf setup x.packet side) ∧
      (x.session true).remoteId = coordinates (publicKey setup.recipient.localSk) ∧
      (x.session false).remoteId = coordinates (publicKey setup.initiator.localSk) := by
  obtain ⟨auth, authMsg, hprepared, hauth, hpubkey, hnonce, hrecovered⟩ := exists_auth h
  obtain ⟨iv, hiv⟩ := h.recipientIv
  let ackMsg : AuthAckV4 :=
    { recipientEphemeralPubkey := coordinates (publicKey setup.recipient.draws.ephemeralSk)
      nonce := setup.recipient.draws.nonce
      version := 4 }
  have hbody := length_body ackMsg.roundTrips_fields (length_fields_ack ackMsg)
    setup.recipient.draws.padding_range.2
  obtain ⟨ack, hpacket⟩ : ∃ packet, eciesEncrypt (publicKey setup.initiator.localSk)
      (AuthAckV4.codec.encode ackMsg ++ List.replicate setup.recipient.draws.padding 0)
      setup.recipient.draws.ephemeralSk (.ok iv) = .ok packet := ⟨_, rfl⟩
  have hack := sealed_of_encrypt hpacket hbody
  let packet : Bool → Bytes := fun side => if side then auth else ack
  have hagreed := LawfulSecp256k1.diffieHellman_comm setup.recipient.draws.ephemeralSk
    setup.initiator.draws.ephemeralSk
  have hanswered : answerAuth setup.recipient (auth.take 2) (auth.drop 2) =
      .ok (ack, ⟨secretsOf setup packet false,
        coordinates (publicKey setup.initiator.localSk)⟩) := by
    have hdecode : orDecodeError (AuthMsgV4.codec.decode (AuthMsgV4.codec.encode authMsg ++
        List.replicate setup.initiator.draws.padding 0)) = .ok (authMsg, _) :=
      decode_padded authMsg.roundTrips_fields
        (Nat.lt_trans (length_fields_auth authMsg) (by decide)) _
    unfold answerAuth
    dsimp only
    rw [hauth.opens, List.take_append_drop]
    change (orDecodeError (AuthMsgV4.codec.decode _) >>= _) = _
    rw [hdecode]
    dsimp only [bind, Except.bind]
    rw [hpubkey, b512ToPubkey_coordinates]
    dsimp only [orError, Except.mapError]
    rw [hrecovered]
    dsimp only
    rw [hiv, hpacket, hagreed, hnonce]
    rfl
  have hreceived : receiveAck setup.initiator setup.remotePk auth (ack.take 2) (ack.drop 2) =
      .ok ⟨secretsOf setup packet true, coordinates (publicKey setup.recipient.localSk)⟩ := by
    have hdecode : orDecodeError (AuthAckV4.codec.decode (AuthAckV4.codec.encode ackMsg ++
        List.replicate setup.recipient.draws.padding 0)) = .ok (ackMsg, _) :=
      decode_padded ackMsg.roundTrips_fields
        (Nat.lt_trans (length_fields_ack ackMsg) (by decide)) _
    unfold receiveAck
    dsimp only
    rw [hack.opens, List.take_append_drop, h.remotePk]
    change (orDecodeError (AuthAckV4.codec.decode _) >>= _) = _
    rw [hdecode]
    dsimp only [bind, Except.bind]
    rw [b512ToPubkey_coordinates]
    rfl
  refine ⟨{
    packet
    session := fun side => if side then
        ⟨secretsOf setup packet true, coordinates (publicKey setup.recipient.localSk)⟩
      else ⟨secretsOf setup packet false, coordinates (publicKey setup.initiator.localSk)⟩
    length_packet := by
      intro side
      cases side with
      | true => exact hauth.length_packet
      | false => exact hack.length_packet
    announced := by
      intro side
      cases side with
      | true => exact hauth.announced
      | false => exact hack.announced
    prepared := hprepared
    answered := hanswered
    received := hreceived }, ?_, rfl, rfl⟩
  intro side
  cases side <;> rfl

theorem agree_of_secrets {x : Exchange setup}
    (hsecrets : ∀ side, (x.session side).secrets = secretsOf setup x.packet side)
    (hdialled : (x.session true).remoteId = coordinates (publicKey setup.recipient.localSk))
    (hdialling : (x.session false).remoteId = coordinates (publicKey setup.initiator.localSk)) :
    Agree setup (x.session true) (x.session false) := by
  constructor <;> first | assumption | (rw [hsecrets, hsecrets]; rfl)

variable [Aes]

/-- Whatever the order of the steps and however the bytes are cut up: neither side fails,
two sides that are through agree, and two that are not can still get through. -/
theorem completes_in_agreement [LawfulSecp256k1 SecretKey PublicKey] (h : Honest setup)
    (events : List Event) :
    (∀ side failure, (setup.run .opened events).stage side ≠ .failed failure) ∧
    (∀ initiator recipient initiatorCodec recipientCodec,
      (setup.run .opened events).stage true = .done initiator initiatorCodec →
      (setup.run .opened events).stage false = .done recipient recipientCodec →
      Agree setup initiator recipient) ∧
    ∃ more, ∀ side, ∃ session codec,
      (setup.run .opened (events ++ more)).stage side = .done session codec := by
  obtain ⟨x, hsecrets, hdialled, hdialling⟩ := exists_exchange h
  have hsound : x.Sound (setup.run .opened events) := Exchange.sound_opened.run events
  refine ⟨hsound.not_failed, ?_, ?_⟩
  · intro initiator recipient initiatorCodec recipientCodec hinitiator hrecipient
    have htrue := hsound.valid true
    have hfalse := hsound.valid false
    rw [hinitiator] at htrue
    rw [hrecipient] at hfalse
    rw [htrue.1, hfalse.1]
    exact agree_of_secrets hsecrets hdialled hdialling
  · obtain ⟨more, -, hdone⟩ := hsound.exists_done
    refine ⟨more, ?_⟩
    have happend : setup.run .opened (events ++ more) =
        setup.run (setup.run .opened events) more := List.foldl_append
    rwa [happend]

/-! ## Frames after the exchange -/

end Exchange

section Sample

attribute [local instance] keccak aes256 sampleCurve sha256Hash aes128Ctr Session.unusedSnappy

theorem honest_sampleSetup : Honest sampleSetup where
  remotePk := rfl
  initiatorIv := ⟨_, rfl⟩
  recipientIv := ⟨_, rfl⟩
  signs := ⟨SampleKey.signature, 0, if_pos ⟨rfl, by decide +kernel⟩⟩

/-- The recipient waits, and of the first packet a byte arrives. -/
theorem completes_sampleSetup :
    (∀ side failure, (sampleSetup.run .opened [.poll false, .poll true, .arrive false 1,
      .poll false]).stage side ≠ .failed failure) ∧
    (∀ initiator recipient initiatorCodec recipientCodec,
      (sampleSetup.run .opened [.poll false, .poll true, .arrive false 1,
        .poll false]).stage true = .done initiator initiatorCodec →
      (sampleSetup.run .opened [.poll false, .poll true, .arrive false 1,
        .poll false]).stage false = .done recipient recipientCodec →
      Agree sampleSetup initiator recipient) ∧
    ∃ more, ∀ side, ∃ session codec,
      (sampleSetup.run .opened ([.poll false, .poll true, .arrive false 1, .poll false] ++
        more)).stage side = .done session codec :=
  have := lawful_sampleCurve
  completes_in_agreement honest_sampleSetup _

end Sample

end WasixEth.KeyExchange
