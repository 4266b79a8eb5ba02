import WasixEth.BlockCodec
import WasixEth.Lib.Codec

/-! # Stored records

What is read from the database is decoded on the way, and a record that does not decode stops
the program. The codecs of blocks and of receipts without their type are those of a library.
-/

namespace WasixEth.Storage.Records

open Rlp

/-! ## Fields -/

def address : Codec Address :=
  (Codec.fixed 20).map (fun value => ⟨value.bytes, value.length_eq⟩)
    fun raw => ⟨raw.bytes, raw.length_eq⟩

def word : Codec B256 :=
  (Codec.fixed 32).map (fun value => ⟨value.bytes, value.length_eq⟩)
    fun raw => ⟨raw.bytes, raw.length_eq⟩

def u256 : Codec U256 := (Codec.uint 32).map BitVec.toNat (BitVec.ofNat 256)

theorem roundTrips_address (value : Address) : address.RoundTrips value :=
  (Codec.roundTrips_fixed (by decide) _).map rfl

theorem roundTrips_word (value : B256) : word.RoundTrips value :=
  (Codec.roundTrips_fixed (by decide) _).map rfl

theorem roundTrips_u256 (value : U256) : u256.RoundTrips value := by
  have hlt : value.toNat < 256 ^ 32 := value.isLt
  exact (Codec.roundTrips_uint hlt (by decide)).map (by simp)

/-! ## Change sets -/

section ChangeSets

variable {α : Type}

/-- A list of items, whose header is read for its length alone. -/
def changeSet (item : Codec α) : Codec (List α) where
  encode changes :=
    Rlp.Header.encode ⟨true, item.totalLength changes⟩ ++ changes.flatMap item.encode
  decode buf := do
    let (h, buf) ← refuse (Rlp.Header.decode buf)
    let (remaining, buf) ← splitAt buf h.payloadLength
    let changes ← readAll item.decode remaining.length remaining
    return (changes, buf)
  length changes := lengthOfLength (item.totalLength changes) + item.totalLength changes

/-- A byte that begins no string stands for an account that was not there. -/
def absentMarker : UInt8 := 0xfb

/-- The account before a change, if there was one. -/
def previousAccount : Codec (Option Bytes) where
  encode
    | some account => Codec.bytes.encode account
    | none => [absentMarker]
  decode
    | [] => .error .panic
    | first :: rest =>
        if first = absentMarker then .ok (none, rest)
        else (Codec.bytes.decode (first :: rest)).map fun (account, rest) => (some account, rest)
  length
    | some account => Codec.bytes.length account
    | none => 1

/-- `Vec<(Address, Option<Bytes>)>`. -/
def accountChanges : Codec (List (Address × Option Bytes)) :=
  changeSet (address.pair previousAccount).listed

/-- `Vec<(Address, B256, U256)>`. -/
def storageChanges : Codec (List (Address × B256 × U256)) :=
  changeSet (address.pair (word.pair u256)).listed

/-- The first byte of a header tells lists from strings. -/
theorem head_header (list : Bool) (n : Nat) :
    ∃ first rest, Rlp.Header.encode ⟨list, n⟩ = first :: rest ∧
      (0xC0 ≤ first.toNat ↔ list = true) := by
  unfold Rlp.Header.encode
  dsimp only
  split
  next hshort =>
    refine ⟨_, _, rfl, ?_⟩
    have hcode : ((if list then 0xC0 else 0x80 : UInt8) + UInt8.ofNat n).toNat =
        (if list then 0xC0 else 0x80) + n := by
      cases list <;> exact toNat_add_ofNat (by simp; omega)
    rw [hcode]
    cases list with
    | false =>
        simp
        omega
    | true => simp
  next =>
    have hle := length_trimmedBytes_le n
    refine ⟨_, _, rfl, ?_⟩
    have hcode : ((if list then 0xF7 else 0xB7 : UInt8) +
        UInt8.ofNat (trimmedBytes n).length).toNat =
          (if list then 0xF7 else 0xB7) + (trimmedBytes n).length := by
      cases list <;> exact toNat_add_ofNat (by simp; omega)
    rw [hcode]
    cases list <;> simp <;> omega

theorem head_encodeList (payload : Bytes) :
    ∃ first rest, encodeList payload = first :: rest ∧ 0xC0 ≤ first.toNat := by
  obtain ⟨first, rest, hfirst, hlist⟩ := head_header true payload.length
  rw [encodeList, hfirst]
  exact ⟨first, _, rfl, hlist.mpr rfl⟩

/-- No string begins with the marker. -/
theorem head_encodeBytes (bytes : Bytes) :
    ∃ first rest, encodeBytes bytes = first :: rest ∧ first ≠ absentMarker := by
  obtain ⟨first, rest, hfirst, hstring⟩ := head_header false bytes.length
  have hmarker : ∀ first : UInt8, ¬ 0xC0 ≤ first.toNat → first ≠ absentMarker := by
    rintro first hnot rfl
    exact hnot (by decide)
  have hlow : ¬ 0xC0 ≤ first.toNat := fun hle => Bool.false_ne_true (hstring.mp hle)
  unfold encodeBytes
  split
  next b =>
    split
    next hb => exact ⟨b, [], rfl, hmarker b (by omega)⟩
    next =>
      rw [List.length_singleton] at hfirst
      rw [hfirst]
      exact ⟨first, _, rfl, hmarker first hlow⟩
  next =>
    rw [hfirst]
    exact ⟨first, _, rfl, hmarker first hlow⟩

theorem roundTrips_previousAccount {previous : Option Bytes}
    (hfits : previousAccount.Fits previous) : previousAccount.RoundTrips previous := by
  cases previous with
  | none => exact ⟨fun rest => rfl, rfl⟩
  | some account =>
      have haccount : Codec.bytes.RoundTrips account := Codec.roundTrips_bytes hfits
      refine ⟨fun rest => ?_, haccount.length_eq⟩
      obtain ⟨first, tail, hbytes, hfirst⟩ := head_encodeBytes account
      have hread := haccount.reads rest
      change Codec.bytes.decode (encodeBytes account ++ rest) = _ at hread
      change previousAccount.decode (encodeBytes account ++ rest) = _
      rw [hbytes, List.cons_append] at hread ⊢
      unfold previousAccount
      dsimp only
      rw [if_neg hfirst, hread]
      rfl

theorem roundTrips_changeSet {item : Codec α} {changes : List α}
    (h : ∀ change ∈ changes, item.RoundTrips change)
    (hnonempty : ∀ change ∈ changes, item.encode change ≠ [])
    (hfits : (changeSet item).Fits changes) : (changeSet item).RoundTrips changes := by
  have hlt := Codec.length_flatMap_of_header hfits
  have htotal := Codec.totalLength_eq fun change hmem => (h change hmem).length_eq
  refine ⟨fun rest => ?_, (Codec.length_header_append htotal.symm).symm⟩
  unfold changeSet
  dsimp only
  rw [List.append_assoc, Codec.decode_header htotal.symm (by omega)]
  change (splitAt (changes.flatMap item.encode ++ rest) (item.totalLength changes) >>= _) = _
  rw [Codec.splitAt_append htotal.symm]
  change (readAll item.decode (changes.flatMap item.encode).length
    (changes.flatMap item.encode) >>= _) = _
  rw [Codec.readAll_flatMap h hnonempty (Nat.le_refl _)]
  rfl

/-- Records in a change set, each read back if it fits. -/
theorem roundTrips_listedChanges {record : Codec α} {changes : List α}
    (h : ∀ change, record.Fits change → record.RoundTrips change)
    (hfits : (changeSet record.listed).Fits changes) :
    (changeSet record.listed).RoundTrips changes := by
  have hitems := Codec.fits_of_flatMap (Codec.length_flatMap_of_header hfits)
  refine roundTrips_changeSet (fun change hmem => ?_)
    (fun change _ => Codec.header_append_ne_nil _ _) hfits
  have hitem := hitems change hmem
  exact (h change hitem.listed).listed hitem

end ChangeSets

theorem accountChanges_roundTrips {changes : List (Address × Option Bytes)}
    (hfits : accountChanges.Fits changes) : accountChanges.RoundTrips changes :=
  roundTrips_listedChanges (fun change hchange =>
    (roundTrips_address change.1).pair (roundTrips_previousAccount hchange.snd)) hfits

theorem storageChanges_roundTrips {changes : List (Address × B256 × U256)}
    (hfits : storageChanges.Fits changes) : storageChanges.RoundTrips changes :=
  roundTrips_listedChanges (fun change _ =>
    (roundTrips_address change.1).pair ((roundTrips_word _).pair (roundTrips_u256 _))) hfits

/-! ## Receipts -/

/-- A receipt without its type. -/
structure ReceiptWithBloom where
  status : ReceiptStatus
  cumulativeGasUsed : Nat
  logs : List Log
  logsBloom : Bloom
  deriving DecidableEq

def withBloom (receipt : Receipt) : ReceiptWithBloom :=
  ⟨receipt.status, receipt.cumulativeGasUsed, receipt.logs, receipt.logsBloom⟩

def ofWithBloom (txType : Nat) (rb : ReceiptWithBloom) : Receipt :=
  ⟨txType, rb.status, rb.cumulativeGasUsed, rb.logs, rb.logsBloom⟩

/-- A typed receipt has its type in front of the list, and no string around them. -/
def receipt (untyped : Codec ReceiptWithBloom) : Codec Receipt where
  encode receipt :=
    if receipt.txType = 0 then untyped.encode (withBloom receipt)
    else UInt8.ofNat receipt.txType :: untyped.encode (withBloom receipt)
  decode
    | [] => .error (.refused .inputTooShort)
    | first :: rest =>
        if 0x7f < first.toNat then
          (untyped.decode (first :: rest)).map fun (rb, rest) => (ofWithBloom 0 rb, rest)
        else (untyped.decode rest).map fun (rb, rest) => (ofWithBloom first.toNat rb, rest)
  length receipt :=
    if receipt.txType = 0 then untyped.length (withBloom receipt)
    else untyped.length (withBloom receipt) + 1

/-- An address that fills what is left, or nothing. -/
def contractAddress : Codec (Option Address) where
  encode
    | some addr => address.encode addr
    | none => []
  decode buf :=
    if buf.isEmpty then .ok (none, buf)
    else (address.decode buf).map fun (addr, rest) => (some addr, rest)
  length
    | some _ => 21
    | none => 0

def receiptMeta : Codec ReceiptMeta :=
  (contractAddress.framed (.custom "Expected list for ReceiptMeta")).map
    ReceiptMeta.contractAddress ReceiptMeta.mk

/-- The codec of a library reads this receipt back, and its bytes are a list. -/
structure Granted (untyped : Codec ReceiptWithBloom) (rb : ReceiptWithBloom) : Prop where
  roundTrips : untyped.RoundTrips rb
  list : ∃ first rest, untyped.encode rb = first :: rest ∧ 0xC0 ≤ first.toNat

theorem receipt_roundTrips {untyped : Codec ReceiptWithBloom} {value : Receipt}
    (htype : value.txType < 0x80) (h : Granted untyped (withBloom value)) :
    (receipt untyped).RoundTrips value := by
  obtain ⟨hround, first, tail, hbytes, hlist⟩ := h
  have hlength := hround.length_eq
  unfold receipt
  by_cases hlegacy : value.txType = 0
  · -- The list begins with a byte that is no type.
    refine ⟨fun rest => ?_, ?_⟩
    · have hread := hround.reads rest
      dsimp only
      rw [if_pos hlegacy]
      rw [hbytes, List.cons_append] at hread ⊢
      dsimp only
      rw [if_pos (by omega), hread]
      change Except.ok (ofWithBloom 0 (withBloom value), rest) = _
      rw [← hlegacy]
      rfl
    · dsimp only
      rw [if_pos hlegacy, if_pos hlegacy, hlength]
  · have hbyte : (UInt8.ofNat value.txType).toNat = value.txType := by
      rw [UInt8.toNat_ofNat']
      omega
    refine ⟨fun rest => ?_, ?_⟩
    · dsimp only
      rw [if_neg hlegacy, List.cons_append]
      dsimp only
      rw [hbyte, if_neg (by omega), hround.reads rest]
      rfl
    · dsimp only
      rw [if_neg hlegacy, if_neg hlegacy, List.length_cons, hlength]

theorem receipt_ne_nil {untyped : Codec ReceiptWithBloom} {value : Receipt}
    (h : Granted untyped (withBloom value)) : (receipt untyped).encode value ≠ [] := by
  obtain ⟨-, first, tail, hbytes, -⟩ := h
  unfold receipt
  dsimp only
  split
  · rw [hbytes]
    exact List.cons_ne_nil _ _
  · exact List.cons_ne_nil _ _

theorem contractAddress_reads (value : Option Address) :
    contractAddress.decode (contractAddress.encode value) = .ok (value, []) ∧
      contractAddress.length value = (contractAddress.encode value).length := by
  cases value with
  | none => exact ⟨rfl, rfl⟩
  | some addr =>
      have hround := roundTrips_address addr
      have hlength : (encodeBytes addr.bytes).length = 21 := by
        have haddr := addr.length_eq
        rw [encodeBytes_of_length_ne_one (by omega), List.length_append, length_encode, haddr]
        rfl
      have hne : ¬ (encodeBytes addr.bytes).isEmpty := by
        rw [List.isEmpty_iff_length_eq_zero, hlength]
        decide
      refine ⟨?_, hlength.symm⟩
      have hread := hround.reads_end
      change contractAddress.decode (encodeBytes addr.bytes) = _
      change address.decode (encodeBytes addr.bytes) = _ at hread
      unfold contractAddress
      dsimp only
      rw [if_neg hne, hread]
      rfl

theorem length_contractAddress_le (value : Option Address) : contractAddress.length value ≤ 21 := by
  unfold contractAddress
  dsimp only
  split <;> decide

theorem receiptMeta_roundTrips (value : ReceiptMeta) : receiptMeta.RoundTrips value := by
  obtain ⟨hreads, hlength⟩ := contractAddress_reads value.contractAddress
  have hle := length_contractAddress_le value.contractAddress
  refine (Codec.roundTrips_framed hreads hlength ?_).map rfl
  have hheader := lengthOfLength_le (contractAddress.length value.contractAddress)
  change (Rlp.Header.encode _ ++ contractAddress.encode value.contractAddress).length < 2 ^ 63
  rw [Codec.length_header_append hlength.symm]
  omega

/-! ## Payloads -/

/-- The blobs of a payload with their commitments and proofs. -/
structure BlobsBundleV1 where
  commitments : List (FixedBytes 48)
  proofs : List (FixedBytes 48)
  blobs : List (FixedBytes 131072)

structure StoredPayload where
  block : Block
  receipts : List Receipt
  metas : List ReceiptMeta
  bundle : BlobsBundleV1

/-- The bundle as a nested list. -/
def bundle : Codec BlobsBundleV1 :=
  (((Codec.fixed 48).vec.pair ((Codec.fixed 48).vec.pair (Codec.fixed 131072).vec)).framed
    .unexpectedString).map (fun bundle => (bundle.commitments, bundle.proofs, bundle.blobs))
      fun (commitments, proofs, blobs) => ⟨commitments, proofs, blobs⟩

/-- `(Block<Transaction>, Vec<Receipt>, Vec<ReceiptMeta>, BlobsBundleV1)`. -/
def storedPayload (block : Codec Block) (untyped : Codec ReceiptWithBloom) :
    Codec StoredPayload :=
  ((block.pair ((receipt untyped).vec.pair (receiptMeta.vec.pair bundle))).framed
    .unexpectedString).map
      (fun payload => (payload.block, payload.receipts, payload.metas, payload.bundle))
      fun (block, receipts, metas, bundle) => ⟨block, receipts, metas, bundle⟩

theorem encodeBytes_ne_nil (bytes : Bytes) : encodeBytes bytes ≠ [] := by
  intro hnil
  have hpos := bytesLength_pos bytes
  rw [← length_encodeBytes, hnil] at hpos
  exact absurd hpos (by decide)

theorem roundTrips_fixedVec {n : Nat} (hn : n < 2 ^ 64) {values : List (FixedBytes n)}
    (hfits : (Codec.fixed n).vec.Fits values) : (Codec.fixed n).vec.RoundTrips values :=
  Codec.roundTrips_vec (fun value _ => Codec.roundTrips_fixed hn value)
    (fun value _ => encodeBytes_ne_nil value.bytes) hfits

theorem bundle_roundTrips {value : BlobsBundleV1} (hfits : bundle.Fits value) :
    bundle.RoundTrips value := by
  unfold bundle at hfits ⊢
  have hframed := hfits.map
  have hparts := hframed.framed .unexpectedString
  refine .map (.framed ?_ hframed) rfl
  refine Codec.RoundTrips.pair ?_ (Codec.RoundTrips.pair ?_ ?_)
  · exact roundTrips_fixedVec (by decide) hparts.fst
  · exact roundTrips_fixedVec (by decide) hparts.snd.fst
  · exact roundTrips_fixedVec (by decide) hparts.snd.snd

theorem storedPayload_roundTrips {block : Codec Block} {untyped : Codec ReceiptWithBloom}
    {value : StoredPayload} (hblock : block.RoundTrips value.block)
    (htypes : ∀ receipt ∈ value.receipts, receipt.txType < 0x80)
    (huntyped : ∀ receipt ∈ value.receipts, Granted untyped (withBloom receipt))
    (hfits : (storedPayload block untyped).Fits value) :
    (storedPayload block untyped).RoundTrips value := by
  unfold storedPayload at hfits ⊢
  have hframed := hfits.map
  have hparts := hframed.framed .unexpectedString
  refine .map (.framed ?_ hframed) rfl
  refine Codec.RoundTrips.pair hblock (Codec.RoundTrips.pair ?_ (Codec.RoundTrips.pair ?_ ?_))
  · refine Codec.roundTrips_vec (fun receipt hmem =>
      receipt_roundTrips (htypes receipt hmem) (huntyped receipt hmem)) (fun value hmem => ?_)
      hparts.snd.fst
    exact receipt_ne_nil (huntyped value hmem)
  · exact Codec.roundTrips_vec (fun value _ => receiptMeta_roundTrips value)
      (fun value _ => Codec.header_append_ne_nil _ _) hparts.snd.snd.fst
  · exact bundle_roundTrips hparts.snd.snd.snd

/-! ## Reading the database -/

section Reading

variable {α : Type}

def asBytes (codec : Codec α) (value : α) : Bytes := codec.encode value

/-- A record that does not decode stops the program. -/
def fromBytes (codec : Codec α) (data : Bytes) : Option α :=
  match codec.decode data with
  | .ok (value, _) => some value
  | .error _ => none

/-- A record is what is read where it was stored. -/
structure ReadsBack (codec : Codec α) (value : α) : Prop where
  decode : codec.decode (codec.encode value) = .ok (value, [])
  length : codec.length value = (codec.encode value).length
  stored : fromBytes codec (asBytes codec value) = some value

theorem readsBack {codec : Codec α} {value : α} (h : codec.RoundTrips value) :
    ReadsBack codec value where
  decode := h.reads_end
  length := h.length_eq
  stored := by
    rw [fromBytes, asBytes, h.reads_end]

end Reading

/-- Every kind of record is read back, where the codecs of the library read back the parts that
are theirs. -/
theorem records_readBack (block : Codec Block) (untyped : Codec ReceiptWithBloom) :
    (∀ changes, accountChanges.Fits changes → ReadsBack accountChanges changes) ∧
    (∀ changes, storageChanges.Fits changes → ReadsBack storageChanges changes) ∧
    (∀ payload, block.RoundTrips payload.block →
      (∀ receipt ∈ payload.receipts, receipt.txType < 0x80 ∧
        Granted untyped (withBloom receipt)) →
      (storedPayload block untyped).Fits payload →
      ReadsBack (storedPayload block untyped) payload) ∧
    (∀ value, value.txType < 0x80 → Granted untyped (withBloom value) →
      ReadsBack (receipt untyped) value) ∧
    ∀ value, ReadsBack receiptMeta value :=
  ⟨fun _ hfits => readsBack (accountChanges_roundTrips hfits),
    fun _ hfits => readsBack (storageChanges_roundTrips hfits),
    fun _ hblock hreceipts hfits => readsBack (storedPayload_roundTrips hblock
      (fun receipt hmem => (hreceipts receipt hmem).1)
      (fun receipt hmem => (hreceipts receipt hmem).2) hfits),
    fun _ htype hgranted => readsBack (receipt_roundTrips htype hgranted),
    fun value => readsBack (receiptMeta_roundTrips value)⟩

/-! ## A payload and its bytes -/

/-- A library codec at a value whose bytes are known. -/
def knownCodec {α : Type} (value : α) (bytes : Bytes) : Codec α where
  encode _ := bytes
  decode buf :=
    if buf.take bytes.length = bytes then .ok (value, buf.drop bytes.length)
    else .error (.refused .unexpectedString)
  length _ := bytes.length

theorem roundTrips_knownCodec {α : Type} (value : α) (bytes : Bytes) :
    (knownCodec value bytes).RoundTrips value where
  reads rest := by
    unfold knownCodec
    dsimp only
    rw [if_pos List.take_left, List.drop_left]
  length_eq := rfl

def plainReceipt : ReceiptWithBloom := ⟨.eip658 true, 21000, [], 0⟩

def plainReceiptBytes : Bytes :=
  encodeList (encodeUint 8 1 ++ encodeUint 8 21000 ++ encodeBytes (List.replicate 256 0) ++
    encodeList [])

def plainReceiptCodec : Codec ReceiptWithBloom := knownCodec plainReceipt plainReceiptBytes

def plainBlock : Block := emptyBlock genesisHeader

def plainBlockCodec : Codec Block :=
  knownCodec plainBlock (encodeList (genesisHeader.encode ++ encodeList [] ++ encodeList []))

def plainPayload : StoredPayload where
  block := plainBlock
  receipts := [ofWithBloom 2 plainReceipt]
  metas := [⟨none⟩, ⟨some (Address.trailing 7)⟩]
  bundle :=
    { commitments := [⟨List.replicate 48 1, List.length_replicate⟩]
      proofs := [⟨List.replicate 48 2, List.length_replicate⟩]
      blobs := [] }

theorem granted_plainReceipt : Granted plainReceiptCodec plainReceipt :=
  ⟨roundTrips_knownCodec _ _, head_encodeList _⟩

theorem records_readBack_plainPayload :
    ReadsBack (storedPayload plainBlockCodec plainReceiptCodec) plainPayload := by
  refine (records_readBack plainBlockCodec plainReceiptCodec).2.2.1 plainPayload
    (roundTrips_knownCodec _ _) ?_ ?_
  · intro receipt hmem
    obtain rfl := List.mem_singleton.mp hmem
    exact ⟨by decide, granted_plainReceipt⟩
  · unfold Codec.Fits
    decide +kernel

/-- The type byte is taken for the header of a list. -/
theorem not_readsBack_highType :
    ¬ ∀ value : Receipt, value.txType < 256 → Granted plainReceiptCodec (withBloom value) →
      ReadsBack (receipt plainReceiptCodec) value := by
  intro hall
  have hread := (hall (ofWithBloom 0x80 plainReceipt) (by decide) granted_plainReceipt).decode
  have hrefused : (receipt plainReceiptCodec).decode
      ((receipt plainReceiptCodec).encode (ofWithBloom 0x80 plainReceipt)) =
        .error (.refused .unexpectedString) := by
    decide +kernel
  rw [hrefused] at hread
  cases hread

end WasixEth.Storage.Records
