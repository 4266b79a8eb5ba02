import WasixEth.Lib.RlpItem

/-! # Codecs

An encoder with the decoder that reads one value back from the front of a buffer, and the
length the encoder announces. A decoder refuses a buffer, or the program stops at an index
that lies outside it.
-/

namespace WasixEth.Rlp

inductive Failure where
  | refused (error : Error)
  | panic
  deriving DecidableEq

structure Codec (α : Type) where
  encode : α → Bytes
  decode : Bytes → Except Failure (α × Bytes)
  length : α → Nat

variable {α β : Type}

/-- A decoder that stops nothing. -/
def refuse (result : Except Error α) : Except Failure α := result.mapError .refused

/-- `split_at`, which must not go past the end. -/
def splitAt (buf : Bytes) (n : Nat) : Except Failure (Bytes × Bytes) :=
  if n ≤ buf.length then .ok (buf.take n, buf.drop n) else .error .panic

/-- Values one after the other, to the end of a buffer. Every value takes up a byte, so the
length of the buffer is enough fuel. -/
def readAll (read : Bytes → Except Failure (α × Bytes)) : Nat → Bytes → Except Failure (List α)
  | _, [] => .ok []
  | 0, _ :: _ => .error .panic
  | fuel + 1, byte :: rest => do
      let (value, after) ← read (byte :: rest)
      let values ← readAll read fuel after
      return value :: values

namespace Codec

def bytes : Codec Bytes where
  encode := encodeBytes
  decode buf := refuse (Header.decodeBytes false buf)
  length := bytesLength

def fixed (n : Nat) : Codec (FixedBytes n) where
  encode value := encodeBytes value.bytes
  decode buf := refuse (decodeFixed n buf)
  length value := bytesLength value.bytes

def uint (width : Nat) : Codec Nat where
  encode := encodeUint width
  decode buf := refuse (decodeInt width buf)
  length := uintLength width

/-- The same bytes for another type of values. -/
def map (codec : Codec β) (toRaw : α → β) (ofRaw : β → α) : Codec α where
  encode value := codec.encode (toRaw value)
  decode buf := (codec.decode buf).map fun (raw, rest) => (ofRaw raw, rest)
  length value := codec.length (toRaw value)

/-- The lengths of items, added up. -/
def totalLength (item : Codec α) (values : List α) : Nat := (values.map item.length).sum

/-- A list of items. -/
def vec (item : Codec α) : Codec (List α) where
  encode values :=
    Header.encode ⟨true, item.totalLength values⟩ ++ values.flatMap item.encode
  decode buf := do
    let (payload, rest) ← refuse (Header.decodeBytes true buf)
    let values ← readAll item.decode payload.length payload
    return (values, rest)
  length values := listLength (item.totalLength values)

/-- A value and another behind it. -/
def pair (first : Codec α) (second : Codec β) : Codec (α × β) where
  encode value := first.encode value.1 ++ second.encode value.2
  decode buf := do
    let (a, buf) ← first.decode buf
    let (b, buf) ← second.decode buf
    return ((a, b), buf)
  length value := first.length value.1 + second.length value.2

/-- A value behind a list header that is not looked at when the value is read. -/
def listed (codec : Codec α) : Codec α where
  encode value := Header.encode ⟨true, codec.length value⟩ ++ codec.encode value
  decode buf := do
    let (_, buf) ← refuse (Header.decode buf)
    codec.decode buf
  length value := lengthOfLength (codec.length value) + codec.length value

/-- A value that fills the payload of a list. -/
def framed (noList : Error) (codec : Codec α) : Codec α where
  encode value := Header.encode ⟨true, codec.length value⟩ ++ codec.encode value
  decode buf := do
    let (h, buf) ← refuse (Header.decode buf)
    if !h.list then .error (.refused noList) else
    let (body, rest) ← splitAt buf h.payloadLength
    let (value, body) ← codec.decode body
    if !body.isEmpty then .error (.refused .unexpectedLength) else
    return (value, rest)
  length value := lengthOfLength (codec.length value) + codec.length value

/-- A value is read back from its bytes, in front of anything, and announces their number. -/
structure RoundTrips (codec : Codec α) (value : α) : Prop where
  reads : ∀ rest, codec.decode (codec.encode value ++ rest) = .ok (value, rest)
  length_eq : codec.length value = (codec.encode value).length

/-- The bytes of the value fit a vector. -/
def Fits (codec : Codec α) (value : α) : Prop := (codec.encode value).length < 2 ^ 63

/-! ## Parts of what fits -/

section Parts

variable {codec first : Codec α} {second : Codec β} {value : α} {values : List α} {n : Nat}

theorem fits_of_header
    (h : (Header.encode ⟨true, n⟩ ++ codec.encode value).length < 2 ^ 63) :
    codec.Fits value := by
  rw [List.length_append] at h
  unfold Fits
  omega

theorem Fits.map {toRaw : β → α} {ofRaw : α → β} {value : β}
    (h : (codec.map toRaw ofRaw).Fits value) : codec.Fits (toRaw value) :=
  h

theorem Fits.listed (h : codec.listed.Fits value) : codec.Fits value := fits_of_header h

theorem Fits.framed (noList : Error) (h : (codec.framed noList).Fits value) : codec.Fits value :=
  fits_of_header h

theorem Fits.fst {value : α × β} (h : (first.pair second).Fits value) : first.Fits value.1 := by
  change (first.encode value.1 ++ second.encode value.2).length < 2 ^ 63 at h
  rw [List.length_append] at h
  unfold Fits
  omega

theorem Fits.snd {value : α × β} (h : (first.pair second).Fits value) : second.Fits value.2 := by
  change (first.encode value.1 ++ second.encode value.2).length < 2 ^ 63 at h
  rw [List.length_append] at h
  unfold Fits
  omega

/-- A value among others is no longer than all of them. -/
theorem fits_of_flatMap (h : (values.flatMap codec.encode).length < 2 ^ 63) :
    ∀ value ∈ values, codec.Fits value := by
  intro value hmem
  obtain ⟨before, after, rfl⟩ := List.append_of_mem hmem
  simp only [List.flatMap_append, List.flatMap_cons, List.length_append] at h
  unfold Fits
  omega

theorem length_flatMap_of_header
    (h : (Header.encode ⟨true, n⟩ ++ values.flatMap codec.encode).length < 2 ^ 63) :
    (values.flatMap codec.encode).length < 2 ^ 63 := by
  rw [List.length_append] at h
  omega

theorem Fits.of_mem (h : codec.vec.Fits values) : ∀ value ∈ values, codec.Fits value :=
  fits_of_flatMap (length_flatMap_of_header h)

end Parts

/-! ## Single items -/

theorem roundTrips_bytes {value : Bytes} (hfits : bytes.Fits value) :
    RoundTrips bytes value where
  reads rest := by
    change refuse (Header.decodeBytes false (encodeBytes value ++ rest)) = _
    have hle := length_le_bytesLength value
    change (encodeBytes value).length < 2 ^ 63 at hfits
    rw [length_encodeBytes] at hfits
    rw [decodeBytes_string value (by omega)]
    rfl
  length_eq := (length_encodeBytes value).symm

theorem roundTrips_fixed {n : Nat} (hn : n < 2 ^ 64) (value : FixedBytes n) :
    RoundTrips (fixed n) value where
  reads rest := by
    change refuse (decodeFixed n (encodeBytes value.bytes ++ rest)) = _
    rw [decodeFixed_encode value hn]
    rfl
  length_eq := (length_encodeBytes value.bytes).symm

theorem roundTrips_uint {width n : Nat} (hn : n < 256 ^ width) (hwidth : width < 2 ^ 64) :
    RoundTrips (uint width) n where
  reads rest := by
    change refuse (decodeInt width (encodeUint width n ++ rest)) = _
    rw [decodeInt_encodeUint hn hwidth]
    rfl
  length_eq := (length_encodeUint width n).symm

theorem RoundTrips.map {codec : Codec β} {toRaw : α → β} {ofRaw : β → α} {value : α}
    (h : RoundTrips codec (toRaw value)) (hraw : ofRaw (toRaw value) = value) :
    RoundTrips (codec.map toRaw ofRaw) value where
  reads rest := by
    change (codec.decode (codec.encode (toRaw value) ++ rest)).map _ = _
    rw [h.reads]
    change Except.ok (ofRaw (toRaw value), rest) = _
    rw [hraw]
  length_eq := h.length_eq

/-! ## Lists -/

theorem totalLength_eq {item : Codec α} {values : List α}
    (h : ∀ value ∈ values, item.length value = (item.encode value).length) :
    item.totalLength values = (values.flatMap item.encode).length := by
  unfold totalLength
  induction values with
  | nil => rfl
  | cons value values ih =>
      rw [List.map_cons, List.sum_cons, List.flatMap_cons, List.length_append,
        h value List.mem_cons_self, ih fun other hmem => h other (List.mem_cons_of_mem _ hmem)]

/-- What is read back one by one is read back to the end. -/
theorem readAll_flatMap {item : Codec α} {values : List α}
    (h : ∀ value ∈ values, RoundTrips item value)
    (hnonempty : ∀ value ∈ values, item.encode value ≠ []) {fuel : Nat}
    (hfuel : (values.flatMap item.encode).length ≤ fuel) :
    readAll item.decode fuel (values.flatMap item.encode) = .ok values := by
  induction values generalizing fuel with
  | nil => cases fuel <;> rfl
  | cons value values ih =>
      have hvalue := (h value List.mem_cons_self).reads (values.flatMap item.encode)
      obtain ⟨byte, rest, hbytes⟩ := List.exists_cons_of_ne_nil (hnonempty value List.mem_cons_self)
      rw [List.flatMap_cons, hbytes, List.cons_append, List.length_cons,
        List.length_append] at hfuel
      obtain ⟨fuel, rfl⟩ := Nat.exists_eq_add_one_of_ne_zero (show fuel ≠ 0 by omega)
      have hrest := ih (fun other hmem => h other (List.mem_cons_of_mem _ hmem))
        (fun other hmem => hnonempty other (List.mem_cons_of_mem _ hmem))
        (show (values.flatMap item.encode).length ≤ fuel by omega)
      rw [List.flatMap_cons, hbytes, List.cons_append, readAll]
      rw [hbytes, List.cons_append] at hvalue
      rw [hvalue]
      change (readAll item.decode fuel (values.flatMap item.encode) >>= fun values =>
        Except.ok (value :: values)) = _
      rw [hrest]
      rfl

/-- A header in front of a payload of the length it announces. -/
theorem decode_header {payload : Bytes} {n : Nat} (hlength : payload.length = n)
    (hlt : n < 2 ^ 64) (rest : Bytes) :
    refuse (Header.decode (Header.encode ⟨true, n⟩ ++ (payload ++ rest))) =
      .ok (⟨true, n⟩, payload ++ rest) := by
  have hannounces : Header.Announces ⟨true, n⟩ payload := ⟨hlength, hlt, nofun⟩
  rw [Rlp.decode_encode hannounces rest]
  rfl

theorem splitAt_append {payload : Bytes} {n : Nat} (hlength : payload.length = n) (rest : Bytes) :
    splitAt (payload ++ rest) n = .ok (payload, rest) := by
  subst hlength
  unfold splitAt
  rw [if_pos (by rw [List.length_append]; exact Nat.le_add_right _ _), List.take_left,
    List.drop_left]

theorem length_header_append {payload : Bytes} {n : Nat} (h : payload.length = n) :
    (Header.encode ⟨true, n⟩ ++ payload).length = lengthOfLength n + n := by
  rw [List.length_append, length_encode, h]

theorem header_append_ne_nil (n : Nat) (payload : Bytes) :
    Header.encode ⟨true, n⟩ ++ payload ≠ [] := by
  intro hnil
  have hpos := lengthOfLength_pos n
  rw [← length_encode ⟨true, n⟩, (List.append_eq_nil_iff.mp hnil).1] at hpos
  exact absurd hpos (by decide)

theorem roundTrips_vec {item : Codec α} {values : List α}
    (h : ∀ value ∈ values, RoundTrips item value)
    (hnonempty : ∀ value ∈ values, item.encode value ≠ []) (hfits : item.vec.Fits values) :
    RoundTrips item.vec values := by
  have hlt := length_flatMap_of_header hfits
  have htotal := totalLength_eq fun value hmem => (h value hmem).length_eq
  refine ⟨fun rest => ?_, (length_header_append htotal.symm).symm⟩
  have hencode : item.vec.encode values = encodeList (values.flatMap item.encode) := by
    rw [encodeList, ← htotal]
    rfl
  change (refuse (Header.decodeBytes true (item.vec.encode values ++ rest)) >>= fun read =>
    readAll item.decode read.1.length read.1 >>= fun values => Except.ok (values, read.2)) = _
  rw [hencode, decodeBytes_list _ (by omega)]
  change (readAll item.decode (values.flatMap item.encode).length (values.flatMap item.encode) >>=
    fun values => Except.ok (values, rest)) = _
  rw [readAll_flatMap h hnonempty (Nat.le_refl _)]
  rfl

/-! ## Records -/

theorem RoundTrips.pair {first : Codec α} {second : Codec β} {value : α × β}
    (hfirst : RoundTrips first value.1) (hsecond : RoundTrips second value.2) :
    RoundTrips (first.pair second) value where
  reads rest := by
    change (first.decode ((first.encode value.1 ++ second.encode value.2) ++ rest) >>= fun read =>
      second.decode read.2 >>= fun read' => Except.ok ((read.1, read'.1), read'.2)) = _
    rw [List.append_assoc, hfirst.reads]
    change (second.decode (second.encode value.2 ++ rest) >>= fun read' =>
      Except.ok ((value.1, read'.1), read'.2)) = _
    rw [hsecond.reads]
    rfl
  length_eq := by
    change _ = (first.encode value.1 ++ second.encode value.2).length
    rw [List.length_append, ← hfirst.length_eq, ← hsecond.length_eq]
    rfl

theorem RoundTrips.length_lt {codec : Codec α} {value : α} (h : RoundTrips codec value)
    (hfits : codec.Fits value) : codec.length value < 2 ^ 64 := by
  unfold Fits at hfits
  rw [h.length_eq]
  omega

theorem RoundTrips.listed {codec : Codec α} {value : α} (h : RoundTrips codec value)
    (hfits : codec.listed.Fits value) : RoundTrips codec.listed value where
  reads rest := by
    have hlt := h.length_lt hfits.listed
    change (refuse (Header.decode ((Header.encode _ ++ codec.encode value) ++ rest)) >>= fun read =>
      codec.decode read.2) = _
    rw [List.append_assoc, decode_header h.length_eq.symm hlt]
    exact h.reads rest
  length_eq := (length_header_append h.length_eq.symm).symm

theorem RoundTrips.reads_end {codec : Codec α} {value : α} (h : RoundTrips codec value) :
    codec.decode (codec.encode value) = .ok (value, []) := by
  have hread := h.reads []
  rwa [List.append_nil] at hread

/-- Within a list a value has nothing behind it. -/
theorem roundTrips_framed {noList : Error} {codec : Codec α} {value : α}
    (h : codec.decode (codec.encode value) = .ok (value, []))
    (hlength : codec.length value = (codec.encode value).length)
    (hfits : (codec.framed noList).Fits value) : RoundTrips (codec.framed noList) value where
  reads rest := by
    have hbody : (codec.encode value).length < 2 ^ 63 := Fits.framed noList hfits
    have hlt : codec.length value < 2 ^ 64 := by omega
    unfold framed
    dsimp only
    rw [List.append_assoc, decode_header hlength.symm hlt]
    change (splitAt (codec.encode value ++ rest) (codec.length value) >>= _) = _
    rw [splitAt_append hlength.symm]
    change (codec.decode (codec.encode value) >>= _) = _
    rw [h]
    rfl
  length_eq := (length_header_append hlength.symm).symm

theorem RoundTrips.framed {noList : Error} {codec : Codec α} {value : α}
    (h : RoundTrips codec value) (hfits : (codec.framed noList).Fits value) :
    RoundTrips (codec.framed noList) value :=
  roundTrips_framed h.reads_end h.length_eq hfits

end Codec

end WasixEth.Rlp
