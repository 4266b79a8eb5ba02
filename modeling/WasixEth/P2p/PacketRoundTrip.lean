import WasixEth.P2p.Discovery

/-! # Discovery packets, there and back

Lengths that the encoders add up are the lengths of what they write, but for a
node record with pairs of keys and values. A packet comes back as it was exactly
if it is not such a record.
-/

namespace WasixEth

namespace Discovery

open Rlp

/-- What a decoder makes of the bytes of a value, whatever follows them. -/
def Reads {α : Type} (decode : Bytes → Except Error (α × Bytes)) (item : Bytes) (value : α) :
    Prop :=
  ∀ rest, decode (item ++ rest) = .ok (value, rest)

theorem reads_int (width n : Nat) (hn : n < 256 ^ width) (hwidth : width < 2 ^ 64) :
    Reads (decodeInt width) (encodeUint width n) n :=
  fun rest => decodeInt_encodeUint hn hwidth rest

theorem reads_uint16 (n : UInt16) : Reads (decodeInt 2) (encodeUint 2 n.toNat) n.toNat :=
  reads_int 2 n.toNat n.toNat_lt (by decide)

theorem reads_uint32 (n : UInt32) : Reads (decodeInt 4) (encodeUint 4 n.toNat) n.toNat :=
  reads_int 4 n.toNat n.toNat_lt (by decide)

theorem reads_uint64 (n : UInt64) : Reads (decodeInt 8) (encodeUint 8 n.toNat) n.toNat :=
  reads_int 8 n.toNat n.toNat_lt (by decide)

theorem reads_fixed {n : Nat} (value : FixedBytes n) (hn : n < 2 ^ 64) :
    Reads (decodeFixed n) (encodeBytes value.bytes) value :=
  fun rest => decodeFixed_encode value hn rest

theorem reads_ip (ip : IpAddr) : Reads IpAddr.decode (encodeBytes ip.octets) ip := by
  intro rest
  cases ip with
  | v4 octets =>
      have hlength := octets.length_eq
      rw [IpAddr.decode, IpAddr.octets, decodeBytes_string _ (by omega)]
      simp [bind, Except.bind, hlength, pure, Except.pure]
  | v6 octets =>
      have hlength := octets.length_eq
      rw [IpAddr.decode, IpAddr.octets, decodeBytes_string _ (by omega)]
      simp [bind, Except.bind, hlength, pure, Except.pure]

theorem Reads.self {α : Type} {decode : Bytes → Except Error (α × Bytes)} {item : Bytes} {value : α}
    (h : Reads decode item value) : decode item = .ok (value, []) := by
  have hself := h []
  rwa [List.append_nil] at hself

/-! ## Sizes -/

theorem uintLength_le (width n : Nat) : uintLength width n ≤ width + 9 :=
  (bytesLength_le _).trans (Nat.add_le_add_right (length_uintBytes_le width n) 9)

theorem length_octets_le (ip : IpAddr) : ip.octets.length ≤ 16 := by
  cases ip with
  | v4 octets => exact octets.length_eq.le.trans (by decide)
  | v6 octets => exact octets.length_eq.le

theorem listLength_le (n : Nat) : listLength n ≤ n + 9 := by
  have hlength := lengthOfLength_le n
  unfold listLength
  omega

/-- A header with the length of what follows it makes a list. -/
theorem encode_append_eq_encodeList {n : Nat} {payload : Bytes} (h : n = payload.length) :
    Header.encode ⟨true, n⟩ ++ payload = encodeList payload := by
  rw [h, encodeList]

/-! ## Endpoints -/

theorem length_endpoint (endpoint : NodeEndpoint) : endpoint.encode.length = endpoint.length := by
  simp only [NodeEndpoint.encode, NodeEndpoint.length, NodeEndpoint.payloadLength,
    List.length_append, length_encode, length_encodeBytes, length_encodeUint, listLength]
  omega

theorem payloadLength_endpoint_le (endpoint : NodeEndpoint) : endpoint.payloadLength ≤ 47 := by
  have hip := bytesLength_le endpoint.ip.octets
  have hoctets := length_octets_le endpoint.ip
  have hudp := uintLength_le 2 endpoint.udpPort.toNat
  have htcp := uintLength_le 2 endpoint.tcpPort.toNat
  unfold NodeEndpoint.payloadLength
  omega

theorem reads_endpoint (endpoint : NodeEndpoint) :
    Reads NodeEndpoint.decode endpoint.encode endpoint := by
  intro rest
  have hlength : endpoint.payloadLength = (encodeBytes endpoint.ip.octets ++
      (encodeUint 2 endpoint.udpPort.toNat ++ encodeUint 2 endpoint.tcpPort.toNat)).length := by
    simp only [NodeEndpoint.payloadLength, List.length_append, length_encodeBytes,
      length_encodeUint, Nat.add_assoc]
  have hbound := payloadLength_endpoint_le endpoint
  rw [NodeEndpoint.encode, encode_append_eq_encodeList hlength, NodeEndpoint.decode,
    decodeBytes_list _ (by omega)]
  dsimp only [bind, Except.bind]
  rw [reads_ip]
  dsimp only
  rw [reads_uint16]
  dsimp only
  rw [(reads_uint16 _).self]
  simp [pure, Except.pure]

/-! ## The packets without records -/

theorem decodeSeq_encodeSeq (seq : Option UInt64) : decodeSeq (encodeSeq seq) = .ok seq := by
  cases seq with
  | none => rfl
  | some seq =>
      have hnonempty : (encodeUint 8 seq.toNat).isEmpty = false := by
        rw [List.isEmpty_eq_false_iff, ← List.length_pos_iff, length_encodeUint]
        exact bytesLength_pos _
      rw [decodeSeq, encodeSeq, hnonempty, (reads_uint64 seq).self]
      simp [bind, Except.bind, pure, Except.pure]

theorem length_encodeSeq (seq : Option UInt64) : (encodeSeq seq).length = seqLength seq := by
  cases seq with
  | none => rfl
  | some seq => exact length_encodeUint 8 seq.toNat

theorem seqLength_le (seq : Option UInt64) : seqLength seq ≤ 17 := by
  cases seq with
  | none => exact Nat.zero_le _
  | some seq => exact uintLength_le 8 seq.toNat

theorem length_endpoint_le (endpoint : NodeEndpoint) : endpoint.length ≤ 56 :=
  (listLength_le _).trans (Nat.add_le_add_right (payloadLength_endpoint_le endpoint) 9)

theorem reads_ping (ping : Ping) : Reads Ping.decode ping.encode ping := by
  intro rest
  have hbound : ping.payloadLength ≤ 200 := by
    have hversion := uintLength_le 4 ping.version.toNat
    have hfrom := length_endpoint_le ping.fromEndpoint
    have hto := length_endpoint_le ping.toEndpoint
    have hexpiration := uintLength_le 8 ping.expiration.toNat
    have hseq := seqLength_le ping.enrSeq
    unfold Ping.payloadLength
    omega
  have hlength : ping.payloadLength = (encodeUint 4 ping.version.toNat ++
      (ping.fromEndpoint.encode ++ (ping.toEndpoint.encode ++
        (encodeUint 8 ping.expiration.toNat ++ encodeSeq ping.enrSeq)))).length := by
    simp only [Ping.payloadLength, List.length_append, length_encodeUint, length_endpoint,
      length_encodeSeq, Nat.add_assoc]
  rw [Ping.encode, encode_append_eq_encodeList hlength, Ping.decode,
    decodeBytes_list _ (by omega)]
  dsimp only [bind, Except.bind]
  rw [reads_uint32]
  dsimp only
  rw [reads_endpoint]
  dsimp only
  rw [reads_endpoint]
  dsimp only
  rw [reads_uint64]
  dsimp only
  rw [decodeSeq_encodeSeq]
  simp [pure, Except.pure]

theorem reads_pong (pong : Pong) : Reads Pong.decode pong.encode pong := by
  intro rest
  have hbound : pong.payloadLength ≤ 200 := by
    have hto := length_endpoint_le pong.toEndpoint
    have hecho := bytesLength_le pong.echo.bytes
    have hexpiration := uintLength_le 8 pong.expiration.toNat
    have hseq := seqLength_le pong.enrSeq
    rw [pong.echo.length_eq] at hecho
    unfold Pong.payloadLength
    omega
  have hlength : pong.payloadLength = (pong.toEndpoint.encode ++ (encodeBytes pong.echo.bytes ++
      (encodeUint 8 pong.expiration.toNat ++ encodeSeq pong.enrSeq))).length := by
    simp only [Pong.payloadLength, List.length_append, length_encodeUint, length_endpoint,
      length_encodeSeq, length_encodeBytes, Nat.add_assoc]
  rw [Pong.encode, encode_append_eq_encodeList hlength, Pong.decode,
    decodeBytes_list _ (by omega)]
  dsimp only [bind, Except.bind]
  rw [reads_endpoint]
  dsimp only
  rw [reads_fixed pong.echo (by decide)]
  dsimp only
  rw [reads_uint64]
  dsimp only
  rw [decodeSeq_encodeSeq]
  simp [pure, Except.pure]

theorem reads_findNode (find : FindNode) : Reads FindNode.decode find.encode find := by
  intro rest
  have htarget := bytesLength_le find.target.bytes
  have hexpiration := uintLength_le 8 find.expiration.toNat
  rw [find.target.length_eq] at htarget
  have hlength : bytesLength find.target.bytes + uintLength 8 find.expiration.toNat =
      (encodeBytes find.target.bytes ++ encodeUint 8 find.expiration.toNat).length := by
    rw [List.length_append, length_encodeBytes, length_encodeUint]
  rw [FindNode.encode, encode_append_eq_encodeList hlength, FindNode.decode,
    decodeBytes_list _ (by omega)]
  dsimp only [bind, Except.bind]
  rw [reads_fixed find.target (by decide)]
  dsimp only
  rw [(reads_uint64 _).self]
  simp [pure, Except.pure]

theorem reads_enrRequest (request : ENRRequest) :
    Reads ENRRequest.decode request.encode request := by
  intro rest
  have hexpiration := uintLength_le 8 request.expiration.toNat
  have hlength := length_encodeUint 8 request.expiration.toNat
  rw [ENRRequest.encode, encode_append_eq_encodeList hlength.symm, ENRRequest.decode,
    decodeBytes_list _ (by omega)]
  dsimp only [bind, Except.bind]
  rw [(reads_uint64 _).self]
  simp [pure, Except.pure]

/-! ## Neighbors -/

theorem length_neighbor (neighbor : Neighbor) : neighbor.encode.length = neighbor.length := by
  simp only [Neighbor.encode, Neighbor.length, Neighbor.payloadLength, List.length_append,
    length_encode, length_encodeBytes, length_encodeUint, listLength]
  omega

theorem reads_neighbor (neighbor : Neighbor) :
    Reads Neighbor.decode neighbor.encode neighbor := by
  intro rest
  have hbound : neighbor.payloadLength ≤ 200 := by
    have hip := bytesLength_le neighbor.ip.octets
    have hoctets := length_octets_le neighbor.ip
    have hudp := uintLength_le 2 neighbor.udpPort.toNat
    have htcp := uintLength_le 2 neighbor.tcpPort.toNat
    have hid := bytesLength_le neighbor.id.bytes
    rw [neighbor.id.length_eq] at hid
    unfold Neighbor.payloadLength
    omega
  have hlength : neighbor.payloadLength = (encodeBytes neighbor.ip.octets ++
      (encodeUint 2 neighbor.udpPort.toNat ++ (encodeUint 2 neighbor.tcpPort.toNat ++
        encodeBytes neighbor.id.bytes))).length := by
    simp only [Neighbor.payloadLength, List.length_append, length_encodeBytes,
      length_encodeUint, Nat.add_assoc]
  rw [Neighbor.encode, encode_append_eq_encodeList hlength, Neighbor.decode,
    decodeBytes_list _ (by omega)]
  dsimp only [bind, Except.bind]
  rw [reads_ip]
  dsimp only
  rw [reads_uint16]
  dsimp only
  rw [reads_uint16]
  dsimp only
  rw [(reads_fixed neighbor.id (by decide)).self]
  simp [pure, Except.pure]

theorem length_flatMap_neighbors (nodes : List Neighbor) :
    (nodes.flatMap Neighbor.encode).length = Neighbors.nodesPayloadLength nodes := by
  rw [List.length_flatMap]
  unfold Neighbors.nodesPayloadLength
  congr 1
  exact List.map_congr_left fun node _ => length_neighbor node

theorem encodeNodes_eq (nodes : List Neighbor) :
    Neighbors.encodeNodes nodes = encodeList (nodes.flatMap Neighbor.encode) :=
  encode_append_eq_encodeList (length_flatMap_neighbors nodes).symm

theorem reads_neighbors (neighbors : Neighbors) (hsize : neighbors.encode.length < 2 ^ 64) :
    Reads Neighbors.decode neighbors.encode neighbors := by
  intro rest
  have hlength : listLength (Neighbors.nodesPayloadLength neighbors.nodes) +
      uintLength 8 neighbors.expiration.toNat =
        (Neighbors.encodeNodes neighbors.nodes ++
          encodeUint 8 neighbors.expiration.toNat).length := by
    rw [List.length_append, encodeNodes_eq, length_encodeList, length_flatMap_neighbors,
      length_encodeUint]
  have hencode : neighbors.encode = encodeList (Neighbors.encodeNodes neighbors.nodes ++
      encodeUint 8 neighbors.expiration.toNat) := encode_append_eq_encodeList hlength
  have hpayload : (Neighbors.encodeNodes neighbors.nodes ++
      encodeUint 8 neighbors.expiration.toNat).length < 2 ^ 64 := by
    rw [hencode, length_encodeList] at hsize
    unfold listLength at hsize
    omega
  have hnodes : (neighbors.nodes.flatMap Neighbor.encode).length < 2 ^ 64 := by
    rw [List.length_append, encodeNodes_eq, length_encodeList] at hpayload
    unfold listLength at hpayload
    omega
  rw [hencode, Neighbors.decode, decodeBytes_list _ hpayload]
  dsimp only [bind, Except.bind]
  rw [encodeNodes_eq, decodeVec_encodeList (fun node _ => reads_neighbor node) ?_ hnodes]
  · dsimp only
    rw [(reads_uint64 _).self]
    simp [pure, Except.pure]
  · intro node _
    rw [← List.length_pos_iff, length_neighbor]
    exact Nat.lt_of_lt_of_le (lengthOfLength_pos _) (Nat.le_add_right _ _)

/-! ## Records -/

theorem reads_enrResponse {response : ENRResponse} (hdata : response.enr.data = []) :
    Reads ENRResponse.decode response.encode response := by
  obtain ⟨token, ⟨seq, signature, data⟩⟩ := response
  obtain rfl : data = [] := hdata
  intro rest
  have htoken := bytesLength_le token.bytes
  have hsignature := bytesLength_le signature.bytes
  have hseq := uintLength_le 8 seq.toNat
  rw [token.length_eq] at htoken
  rw [signature.length_eq] at hsignature
  have hpayload : Enr.payloadLength ⟨seq, signature, []⟩ =
      (encodeBytes signature.bytes ++ encodeUint 8 seq.toNat).length := by
    rw [List.length_append, length_encodeBytes, length_encodeUint]
    rfl
  have hrecord : Enr.encode ⟨seq, signature, []⟩ =
      encodeList (encodeBytes signature.bytes ++ encodeUint 8 seq.toNat) := by
    unfold Enr.encode
    rw [List.flatMap_nil, List.append_nil, encode_append_eq_encodeList hpayload]
  have hlength : bytesLength token.bytes + Enr.length ⟨seq, signature, []⟩ =
      (encodeBytes token.bytes ++ Enr.encode ⟨seq, signature, []⟩).length := by
    rw [List.length_append, length_encodeBytes, hrecord, length_encodeList, ← hpayload]
    rfl
  have hsmall := listLength_le (Enr.payloadLength ⟨seq, signature, []⟩)
  have hbound : (encodeBytes signature.bytes ++ encodeUint 8 seq.toNat).length ≤ 100 := by
    rw [List.length_append, length_encodeBytes, length_encodeUint]
    omega
  unfold ENRResponse.encode
  rw [encode_append_eq_encodeList hlength, ENRResponse.decode, decodeBytes_list]
  · dsimp only [bind, Except.bind]
    rw [reads_fixed token (by decide)]
    dsimp only
    rw [hrecord, Enr.decode, ← List.append_nil (encodeList _), decodeBytes_list _ (by omega)]
    dsimp only [bind, Except.bind]
    rw [reads_fixed signature (by decide)]
    dsimp only
    rw [(reads_uint64 _).self]
    simp [decodeItems, pure, Except.pure]
  · rw [List.length_append, length_encodeBytes, hrecord, length_encodeList, ← hpayload]
    omega

/-- What starts like a string is not a list. -/
theorem decodeVec_error {α : Type} (decode : Bytes → Except Error (α × Bytes)) {byte : UInt8}
    (rest : Bytes) (hbyte : byte.toNat < 0xC0) :
    ∃ e, decodeVec decode (byte :: rest) = .error e := by
  have hheader : ∃ e, Header.decodeBytes true (byte :: rest) = .error e := by
    have hprefix : ∀ h after, Header.decodePrefix (byte :: rest) = .ok (h, after) →
        h.list = false := by
      intro h after hdecode
      unfold Header.decodePrefix at hdecode
      grind
    unfold Header.decodeBytes Header.decode
    cases hdecode : Header.decodePrefix (byte :: rest) with
    | error e => exact ⟨e, rfl⟩
    | ok decoded =>
        obtain ⟨h, after⟩ := decoded
        have hlist := hprefix h after hdecode
        dsimp only
        split
        next => exact ⟨_, rfl⟩
        next heq =>
          split at heq
          next => cases heq
          next =>
            cases heq
            rw [hlist]
            exact ⟨_, rfl⟩
  obtain ⟨e, he⟩ := hheader
  unfold decodeVec
  rw [he]
  exact ⟨e, rfl⟩

/-- The header of a string starts like a string. -/
theorem encode_string_cons (n : Nat) :
    ∃ byte rest, Header.encode ⟨false, n⟩ = byte :: rest ∧ byte.toNat < 0xC0 := by
  have hle := length_trimmedBytes_le n
  unfold Header.encode
  split
  next hshort =>
    refine ⟨_, _, rfl, ?_⟩
    dsimp only at hshort ⊢
    rw [if_neg Bool.false_ne_true, toNat_add_ofNat] <;> simp <;> omega
  next =>
    refine ⟨_, _, rfl, ?_⟩
    dsimp only
    rw [if_neg Bool.false_ne_true, toNat_add_ofNat] <;> simp <;> omega

theorem decodeItems_error {α : Type} {decode : Bytes → Except Error (α × Bytes)} {slice : Bytes}
    (hslice : slice ≠ []) (h : ∃ e, decode slice = .error e) (fuel : Nat) :
    ∃ e, decodeItems decode fuel slice = .error e := by
  obtain ⟨byte, rest, rfl⟩ := List.exists_cons_of_ne_nil hslice
  obtain ⟨e, he⟩ := h
  cases fuel with
  | zero => exact ⟨_, rfl⟩
  | succ fuel =>
      rw [decodeItems, he]
      exact ⟨e, rfl⟩

/-- A pair whose value starts like a string is refused. -/
theorem decodePair_error (key : String) (hkey : (stringBytes key).length < 2 ^ 64) {byte : UInt8}
    (rest : Bytes) (hbyte : byte.toNat < 0xC0) :
    ∃ e, Enr.decodePair (encodeBytes (stringBytes key) ++ byte :: rest) = .error e := by
  obtain ⟨e, he⟩ := decodeVec_error (decodeInt 1) rest hbyte
  unfold Enr.decodePair decodeString
  rw [decodeBytes_string _ hkey]
  dsimp only [bind, Except.bind]
  cases String.fromUTF8? ⟨(stringBytes key).toArray⟩ with
  | none => exact ⟨_, rfl⟩
  | some text =>
      dsimp only [pure, Except.pure]
      rw [he]
      exact ⟨e, rfl⟩

theorem bytesLength_le_header (bytes : Bytes) :
    bytesLength bytes ≤ (Header.encode ⟨false, bytes.length⟩ ++ bytes).length := by
  rw [List.length_append, length_encode]
  dsimp only
  unfold bytesLength
  split
  · split
    · simp
    · simp only [List.length_singleton]
      omega
  · omega

theorem pairLength_le (pair : String × Bytes) :
    Enr.pairLength pair ≤ (Enr.encodePair pair).length := by
  unfold Enr.pairLength Enr.encodePair
  rw [List.length_append, length_encodeBytes]
  exact Nat.add_le_add_left (bytesLength_le_header pair.2) _

theorem pairsLength_le (data : List (String × Bytes)) :
    (data.map Enr.pairLength).sum ≤ (data.flatMap Enr.encodePair).length := by
  induction data with
  | nil => exact Nat.le_refl _
  | cons pair data ih =>
      rw [List.map_cons, List.sum_cons, List.flatMap_cons, List.length_append]
      exact Nat.add_le_add (pairLength_le pair) ih

/-- The payload that is announced for a record with pairs ends behind the first
byte of the first value, or later. -/
theorem take_pairs (pair : String × Bytes) (data : List (String × Bytes)) {n : Nat}
    (hn : Enr.pairLength pair ≤ n) :
    ∃ byte rest, byte.toNat < 0xC0 ∧
      (((pair :: data).flatMap Enr.encodePair).take n : Bytes) =
        encodeBytes (stringBytes pair.1) ++ byte :: rest := by
  obtain ⟨byte, header, hheader, hbyte⟩ := encode_string_cons pair.2.length
  have hvalue := bytesLength_pos pair.2
  have hkey : (encodeBytes (stringBytes pair.1)).length + 1 ≤ n := by
    rw [length_encodeBytes]
    unfold Enr.pairLength at hn
    omega
  obtain ⟨m, rfl⟩ := Nat.exists_eq_add_of_le hkey
  refine ⟨byte, (header ++ (pair.2 ++ data.flatMap Enr.encodePair)).take m, hbyte, ?_⟩
  rw [List.flatMap_cons, Enr.encodePair, hheader, List.append_assoc, Nat.add_assoc,
    List.take_length_add_append, Nat.add_comm 1 m, List.append_assoc, List.cons_append,
    List.take_succ_cons]

/-- A record with pairs is cut behind its announced length. -/
theorem encode_enrResponse_cons (token : FixedBytes 32) (seq : UInt64)
    (signature : FixedBytes 64) (pair : String × Bytes) (data : List (String × Bytes)) :
    ∃ byte rest after, byte.toNat < 0xC0 ∧
      ENRResponse.encode ⟨token, ⟨seq, signature, pair :: data⟩⟩ =
        encodeList (encodeBytes token.bytes ++ encodeList (encodeBytes signature.bytes ++
          (encodeUint 8 seq.toNat ++ (encodeBytes (stringBytes pair.1) ++ byte :: rest)))) ++
            after := by
  obtain ⟨enr, henr⟩ : ∃ enr : Enr, enr = ⟨seq, signature, pair :: data⟩ := ⟨_, rfl⟩
  have hannounced : enr.payloadLength = (encodeBytes signature.bytes).length +
      ((encodeUint 8 seq.toNat).length + ((pair :: data).map Enr.pairLength).sum) := by
    rw [henr, length_encodeBytes, length_encodeUint]
    exact Nat.add_assoc _ _ _
  obtain ⟨byte, rest, hbyte, htake⟩ := take_pairs pair data
    (show Enr.pairLength pair ≤ ((pair :: data).map Enr.pairLength).sum by
      rw [List.map_cons, List.sum_cons]
      exact Nat.le_add_right _ _)
  obtain ⟨payload, hpayload⟩ : ∃ payload, payload = encodeBytes signature.bytes ++
      (encodeUint 8 seq.toNat ++ (pair :: data).flatMap Enr.encodePair) := ⟨_, rfl⟩
  have hle : enr.payloadLength ≤ payload.length := by
    rw [hannounced, hpayload, List.length_append, List.length_append]
    exact Nat.add_le_add_left (Nat.add_le_add_left (pairsLength_le _) _) _
  have htaken : (payload.take enr.payloadLength).length = enr.payloadLength := by
    rw [List.length_take, Nat.min_eq_left hle]
  have hrecord : enr.encode = encodeList (payload.take enr.payloadLength) ++
      payload.drop enr.payloadLength := by
    rw [← encode_append_eq_encodeList htaken.symm, List.append_assoc, List.take_append_drop,
      hpayload, henr]
    rfl
  have hlength : bytesLength token.bytes + enr.length =
      (encodeBytes token.bytes ++ encodeList (payload.take enr.payloadLength)).length := by
    rw [List.length_append, length_encodeBytes, length_encodeList, htaken]
    rfl
  refine ⟨byte, rest, payload.drop enr.payloadLength, hbyte, ?_⟩
  have hslice : payload.take enr.payloadLength = encodeBytes signature.bytes ++
      (encodeUint 8 seq.toNat ++ (encodeBytes (stringBytes pair.1) ++ byte :: rest)) := by
    rw [hpayload, hannounced, List.take_length_add_append, List.take_length_add_append, htake]
  rw [← hslice, ← encode_append_eq_encodeList hlength, ← henr]
  unfold ENRResponse.encode
  rw [hrecord]
  simp only [List.append_assoc]

theorem decode_enrResponse_error {response : ENRResponse} (hdata : response.enr.data ≠ [])
    (hsize : response.encode.length < 2 ^ 64) :
    ∃ e, ENRResponse.decode response.encode = .error e := by
  obtain ⟨token, ⟨seq, signature, data⟩⟩ := response
  obtain ⟨pair, data, rfl⟩ := List.exists_cons_of_ne_nil hdata
  obtain ⟨byte, rest, after, hbyte, hencode⟩ :=
    encode_enrResponse_cons token seq signature pair data
  have hkeyLength := length_le_bytesLength (stringBytes pair.1)
  rw [hencode] at hsize ⊢
  simp only [List.length_append, length_encodeList, length_encodeBytes, listLength] at hsize
  obtain ⟨e, he⟩ := decodeItems_error (List.append_ne_nil_of_right_ne_nil _ (List.cons_ne_nil _ _))
    (decodePair_error pair.1 (by omega) rest hbyte)
    (encodeBytes (stringBytes pair.1) ++ byte :: rest).length
  refine ⟨e, ?_⟩
  rw [ENRResponse.decode, decodeBytes_list]
  · dsimp only [bind, Except.bind]
    rw [reads_fixed token (by decide)]
    dsimp only
    rw [Enr.decode, ← List.append_nil (encodeList _), decodeBytes_list]
    · dsimp only [bind, Except.bind]
      rw [reads_fixed signature (by decide)]
      dsimp only
      rw [reads_uint64]
      dsimp only
      rw [he]
    · simp only [List.length_append, length_encodeBytes]
      omega
  · simp only [List.length_append, length_encodeBytes, length_encodeList, listLength]
    omega

/-! ## Payloads -/

namespace Packet

/-- A record that says something about its node. -/
def HasPairs : Packet → Prop
  | .enrResponse response => response.enr.data ≠ []
  | _ => False

theorem decoded_ok {α : Type} {decode : Bytes → Except Error (α × Bytes)} {item : Bytes}
    {value : α} (wrap : α → Packet) (h : Reads decode item value) :
    decoded wrap (decode item) = .ok (wrap value) := by
  rw [h.self, decoded]

theorem decodePayload_enrResponse (buf : Bytes) :
    decodePayload 0x06 buf = decoded .enrResponse (ENRResponse.decode buf) :=
  rfl

theorem decodePayload_ok {packet : Packet} (hsize : packet.encodeData.length < 2 ^ 64)
    (hpairs : ¬ packet.HasPairs) :
    decodePayload packet.packetType packet.encodeData = .ok packet := by
  cases packet with
  | ping ping => exact decoded_ok .ping (reads_ping ping)
  | pong pong => exact decoded_ok .pong (reads_pong pong)
  | findNode find => exact decoded_ok .findNode (reads_findNode find)
  | neighbors neighbors => exact decoded_ok .neighbors (reads_neighbors neighbors hsize)
  | enrRequest request => exact decoded_ok .enrRequest (reads_enrRequest request)
  | enrResponse response =>
      have hdata : response.enr.data = [] := not_not.mp hpairs
      exact decoded_ok .enrResponse (reads_enrResponse hdata)

theorem decodePayload_error {packet : Packet} (hsize : packet.encodeData.length < 2 ^ 64)
    (hpairs : packet.HasPairs) :
    ∃ e, decodePayload packet.packetType packet.encodeData = .error e := by
  cases packet with
  | enrResponse response =>
      obtain ⟨e, he⟩ := decode_enrResponse_error hpairs hsize
      refine ⟨.rlpError e, ?_⟩
      rw [packetType, encodeData, decodePayload_enrResponse, he, decoded]
  | _ => exact hpairs.elim

end Packet

/-! ## Signed packets -/

namespace RawPacket

theorem packetType_range (packet : Packet) :
    ¬ (packet.packetType < 0x01 ∨ 0x06 < packet.packetType) := by
  cases packet <;> simp [Packet.packetType]

section

variable [Keccak256] {SigningKey : Type} [Ecdsa SigningKey]

theorem new_hash (packet : Packet) (key : SigningKey) :
    (new packet key).hash = keccak256 ((new packet key).signature.bytes ++
      ((new packet key).packetType :: (new packet key).data)) :=
  rfl

/-- A packet is taken apart where it was put together. -/
theorem decode_encode_new (packet : Packet) (key : SigningKey) :
    decode (new packet key).encode = .ok (new packet key) := by
  have hrange : ¬ ((new packet key).packetType < 0x01 ∨ 0x06 < (new packet key).packetType) :=
    packetType_range packet
  have hhash := new_hash packet key
  generalize new packet key = raw at hrange hhash
  obtain ⟨⟨hash, hhashLength⟩, ⟨signature, hsignature⟩, packetType, data⟩ := raw
  dsimp only at hrange hhash
  have hdrop : (hash ++ (signature ++ packetType :: data)).drop 32 =
      signature ++ packetType :: data := List.drop_left' hhashLength
  have hdata : (hash ++ (signature ++ packetType :: data)).drop 97 = packetType :: data := by
    rw [show 97 = 32 + 65 from rfl, ← List.drop_drop, hdrop, List.drop_left' hsignature]
  have hbody : (hash ++ (signature ++ packetType :: data)).drop 98 = data := by
    rw [show 98 = 97 + 1 from rfl, ← List.drop_drop, hdata, List.drop_one, List.tail_cons]
  have hlength : ¬ (hash ++ (signature ++ packetType :: data)).length < 98 := by
    simp only [List.length_append, List.length_cons, hhashLength, hsignature]
    omega
  have htype : (hash ++ (signature ++ packetType :: data)).getD 97 0 = packetType := by
    rw [List.getD_eq_getElem?_getD, ← List.head?_drop, hdata]
    rfl
  unfold decode encode
  rw [dif_neg hlength]
  dsimp only
  rw [htype, if_neg hrange, if_neg]
  · simp only [hdrop, hbody, List.take_left' hhashLength, List.take_left' hsignature]
  · rw [hdrop, ← hhash, not_not]
    exact B256.ext (List.take_left' hhashLength)

/-- What is signed for a packet can be recovered. -/
structure Recovers (key : SigningKey) (hash : B256) : Prop where
  id_lt : (Ecdsa.signPrehashRecoverable key hash).2 < 4
  fromSlice : Ecdsa.signatureFromSlice SigningKey (Ecdsa.signPrehashRecoverable key hash).1 = .ok ()
  recovered : Ecdsa.recoverFromPrehash SigningKey hash (Ecdsa.signPrehashRecoverable key hash).1
    (Ecdsa.signPrehashRecoverable key hash).2 = .ok (Ecdsa.publicKey key)

theorem recoverPublicKey_new {packet : Packet} {key : SigningKey}
    (h : Recovers key (keccak256 (packet.packetType :: packet.encodeData))) :
    (new packet key).recoverPublicKey SigningKey = .ok (Ecdsa.publicKey key) := by
  obtain ⟨hid, hslice, hrecovered⟩ := h
  have hsignature := (Ecdsa.signPrehashRecoverable key
    (keccak256 (packet.packetType :: packet.encodeData))).1.length_eq
  unfold recoverPublicKey new
  dsimp only
  simp only [List.take_left' hsignature, List.getD_eq_getElem?_getD, ← List.head?_drop,
    List.drop_left' hsignature, List.head?_cons, Option.getD_some]
  rw [if_neg (UInt8.not_le.mpr hid), hslice, hrecovered]

/-- A packet that arrives as it was sent, under the sender's key. -/
def RoundTrips (packet : Packet) (key : SigningKey) : Prop :=
  ∃ raw, decode (new packet key).encode = .ok raw ∧
    raw.recoverPublicKey SigningKey = .ok (Ecdsa.publicKey key) ∧
    Packet.decodePayload raw.packetType raw.data = .ok packet

/-- The payload is read as it was written. -/
theorem decodePayload_of_roundTrips {packet : Packet} {key : SigningKey}
    (h : RoundTrips packet key) :
    Packet.decodePayload packet.packetType packet.encodeData = .ok packet := by
  obtain ⟨raw, hdecode, -, hpayload⟩ := h
  rw [decode_encode_new] at hdecode
  cases hdecode
  exact hpayload

theorem not_hasPairs_of_roundTrips {packet : Packet} {key : SigningKey}
    (hsize : packet.encodeData.length < 2 ^ 64) (h : RoundTrips packet key) :
    ¬ packet.HasPairs := by
  intro hpairs
  obtain ⟨e, he⟩ := Packet.decodePayload_error hsize hpairs
  have hpayload := decodePayload_of_roundTrips h
  rw [he] at hpayload
  cases hpayload

/-- A packet makes the trip exactly if it is no record with pairs of keys and
values, which are written as strings and read as lists. -/
theorem roundTrips_iff {packet : Packet} {key : SigningKey}
    (hsize : packet.encodeData.length < 2 ^ 64)
    (hrecovers : Recovers key (keccak256 (packet.packetType :: packet.encodeData))) :
    RoundTrips packet key ↔ ¬ packet.HasPairs := by
  constructor
  · exact not_hasPairs_of_roundTrips hsize
  · intro hpairs
    exact ⟨new packet key, decode_encode_new packet key, recoverPublicKey_new hrecovers,
      Packet.decodePayload_ok hsize hpairs⟩

end

/-- Two coordinates, or the two halves of a signature. -/
def words (first second : Nat) : FixedBytes 64 :=
  ⟨beBytes 32 first ++ beBytes 32 second, by simp [length_beBytes]⟩

def sampleKey : FixedBytes 32 :=
  ⟨beBytes 32 0xb71c71a67e1177ad4e901695e1b4b9ee17ae16c6668d313eac2f96dbcda3f291,
    length_beBytes 32 _⟩

def sampleRequest : Packet := .enrRequest ⟨1700000000⟩

/-- A record of the identity scheme alone. -/
def sampleResponse : Packet :=
  .enrResponse ⟨⟨List.replicate 32 0, rfl⟩, ⟨1, words 0 0, [("id", [0x76, 0x34])]⟩⟩

/-- What secp256k1 makes of `sampleKey`: its signatures of the two packets. -/
def sampleSignatures : List (B256 × FixedBytes 64) :=
  [(B256.ofNat 0x483ea6f6369687bd686a6b427b8a9391a6cf001ecbfb71d2f533b10970179cb0,
      words 0x12332bfec420a907a6331ec2753dc17ad23ee3c8243d8b8f355a7cd9d6695d54
        0x726fbcf6567d235f334be5319a1e33f3459d56eb6c294704dbe1b7009d1f9a29),
    (B256.ofNat 0x7bb84c9508fc29c0accc0c3f359c276ad02dcad50ce40eac788ae04da746f2d6,
      words 0x7a07b6d862ed33bc77d77131724535c3947b661cca493403bae8fa06b5161b31
        0x70d38fc902ad66b82009340c97e5ce57933914e3d5775da5d004c84a0930d490)]

@[reducible] def sampleEcdsa : Ecdsa (FixedBytes 32) where
  signPrehashRecoverable _ hash := ((sampleSignatures.lookup hash).getD (words 0 0), 1)
  signatureFromSlice _ := .ok ()
  recoverFromPrehash hash signature recoveryId :=
    if (hash, signature) ∈ sampleSignatures ∧ recoveryId = 1 then
      .ok (words 0xca634cae0d49acb401d8a4c6b6fe8c55b70d115bf400769cc1400f3258cd3138
        0x7574077f301b421bc84df7266c44e9e6d569fc56be00812904767bf5ccd1fc7f)
    else .error "signature error"
  publicKey _ := words 0xca634cae0d49acb401d8a4c6b6fe8c55b70d115bf400769cc1400f3258cd3138
    0x7574077f301b421bc84df7266c44e9e6d569fc56be00812904767bf5ccd1fc7f

section

attribute [local instance] keccak sampleEcdsa

theorem roundTrips_request : RoundTrips sampleRequest sampleKey :=
  (roundTrips_iff (by decide) ⟨by decide +kernel, rfl, by decide +kernel⟩).mpr
    fun h => h

/-- The answer with a record is refused. -/
theorem not_roundTrips_response : ¬ RoundTrips sampleResponse sampleKey := by
  intro h
  have hsize : sampleResponse.encodeData.length < 2 ^ 64 := by decide +kernel
  exact not_hasPairs_of_roundTrips hsize h (List.cons_ne_nil _ _)

end

end RawPacket

end Discovery

end WasixEth
