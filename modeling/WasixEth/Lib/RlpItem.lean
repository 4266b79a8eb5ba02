import WasixEth.Lib.RlpUint

/-! # Typed items in RLP

Strings and lists read back with the kind that is expected, machine integers,
byte strings of a fixed length and lists of items.
-/

namespace WasixEth.Rlp

/-- The payload of an item of the kind that is expected. -/
def Header.decodeBytes (list : Bool) (buf : Bytes) : Except Error (Bytes × Bytes) :=
  match Header.decode buf with
  | .error e => .error e
  | .ok (h, after) =>
      if h.list ≠ list then .error (if list then .unexpectedString else .unexpectedList)
      else .ok (after.take h.payloadLength, after.drop h.payloadLength)

def staticLeftPad (width : Nat) (bytes : Bytes) : Except Error Nat :=
  if width < bytes.length then .error .overflow
  else if bytes.head? = some 0 then .error .leadingZero
  else .ok (fromBytes bytes)

/-- Read an unsigned integer of some bytes. -/
def decodeInt (width : Nat) (buf : Bytes) : Except Error (Nat × Bytes) :=
  match Header.decodeBytes false buf with
  | .error e => .error e
  | .ok (bytes, rest) =>
      match staticLeftPad width bytes with
      | .error e => .error e
      | .ok n => .ok (n, rest)

/-- A byte string of a fixed length. -/
structure FixedBytes (n : Nat) where
  bytes : Bytes
  length_eq : bytes.length = n
  deriving DecidableEq

def decodeFixed (n : Nat) (buf : Bytes) : Except Error (FixedBytes n × Bytes) :=
  match Header.decodeBytes false buf with
  | .error e => .error e
  | .ok (bytes, rest) =>
      if h : bytes.length = n then .ok (⟨bytes, h⟩, rest) else .error .unexpectedLength

/-- The items of a payload, one after the other. Every item takes up a byte, so
the length of the payload is enough fuel. -/
def decodeItems {α : Type} (decode : Bytes → Except Error (α × Bytes)) :
    Nat → Bytes → Except Error (List α)
  | _, [] => .ok []
  | 0, _ :: _ => .error .inputTooShort
  | fuel + 1, byte :: rest => do
      let (value, after) ← decode (byte :: rest)
      let values ← decodeItems decode fuel after
      return value :: values

/-- Read a list of items. -/
def decodeVec {α : Type} (decode : Bytes → Except Error (α × Bytes)) (buf : Bytes) :
    Except Error (List α × Bytes) := do
  let (payload, rest) ← Header.decodeBytes true buf
  let values ← decodeItems decode payload.length payload
  return (values, rest)

/-- The announced size of an integer. -/
def uintLength (width n : Nat) : Nat := bytesLength (uintBytes width n)

/-- The announced size of a list with a payload of some bytes. -/
def listLength (payloadLength : Nat) : Nat := lengthOfLength payloadLength + payloadLength

/-! ## Extents -/

theorem length_of_decodePrefix {buf after : Bytes} {h : Header}
    (hdecode : Header.decodePrefix buf = .ok (h, after)) : after.length ≤ buf.length := by
  unfold Header.decodePrefix at hdecode
  grind

theorem length_of_decode {buf after : Bytes} {h : Header}
    (hdecode : Header.decode buf = .ok (h, after)) : after.length ≤ buf.length := by
  unfold Header.decode at hdecode
  split at hdecode
  next => cases hdecode
  next hprefix =>
    split at hdecode
    next => cases hdecode
    next =>
      cases hdecode
      exact length_of_decodePrefix hprefix

theorem length_of_decodeInt {width n : Nat} {buf rest : Bytes}
    (hdecode : decodeInt width buf = .ok (n, rest)) : rest.length ≤ buf.length := by
  unfold decodeInt Header.decodeBytes at hdecode
  split at hdecode
  next => cases hdecode
  next hbytes =>
    split at hbytes
    next => cases hbytes
    next hheader =>
      split at hbytes
      next => cases hbytes
      next =>
        cases hbytes
        split at hdecode
        next => cases hdecode
        next =>
          cases hdecode
          rw [List.length_drop]
          exact Nat.le_trans (Nat.sub_le _ _) (length_of_decode hheader)

/-! ## Round trips -/

theorem decodeBytes_string (bytes : Bytes) (hlt : bytes.length < 2 ^ 64) (rest : Bytes) :
    Header.decodeBytes false (encodeBytes bytes ++ rest) = .ok (bytes, rest) := by
  simp [Header.decodeBytes, decode_encodeBytes bytes hlt]

theorem decodeInt_encodeUint {width n : Nat} (hn : n < 256 ^ width) (hwidth : width < 2 ^ 64)
    (rest : Bytes) : decodeInt width (encodeUint width n ++ rest) = .ok (n, rest) := by
  have hlength := length_uintBytes_le width n
  have hpad : staticLeftPad width (uintBytes width n) = .ok n := by
    unfold staticLeftPad
    rw [if_neg (Nat.not_lt.mpr hlength), if_neg (head?_uintBytes width n), fromBytes_uintBytes hn]
  rw [decodeInt, encodeUint, decodeBytes_string _ (Nat.lt_of_le_of_lt hlength hwidth)]
  dsimp only
  rw [hpad]

theorem length_encodeUint (width n : Nat) : (encodeUint width n).length = uintLength width n :=
  length_encodeBytes _

theorem length_encodeList (payload : Bytes) :
    (encodeList payload).length = listLength payload.length := by
  rw [encodeList, List.length_append, length_encode, listLength]

theorem decodeBytes_list (payload : Bytes) (hlt : payload.length < 2 ^ 64) (rest : Bytes) :
    Header.decodeBytes true (encodeList payload ++ rest) = .ok (payload, rest) := by
  have hannounces : Header.Announces ⟨true, payload.length⟩ payload := ⟨rfl, hlt, nofun⟩
  have hdecode := decode_encode hannounces rest
  simp [Header.decodeBytes, encodeList, hdecode]

theorem decodeFixed_encode {n : Nat} (value : FixedBytes n) (hn : n < 2 ^ 64) (rest : Bytes) :
    decodeFixed n (encodeBytes value.bytes ++ rest) = .ok (value, rest) := by
  rw [decodeFixed, decodeBytes_string _ (value.length_eq.symm ▸ hn)]
  simp [value.length_eq]

/-- Items that are read back one by one are read back as a list. -/
theorem decodeItems_flatMap {α : Type} {decode : Bytes → Except Error (α × Bytes)}
    {encode : α → Bytes} {values : List α}
    (hdecode : ∀ value ∈ values, ∀ rest, decode (encode value ++ rest) = .ok (value, rest))
    (hnonempty : ∀ value ∈ values, encode value ≠ []) {fuel : Nat}
    (hfuel : (values.flatMap encode).length ≤ fuel) :
    decodeItems decode fuel (values.flatMap encode) = .ok values := by
  induction values generalizing fuel with
  | nil => cases fuel <;> rfl
  | cons value values ih =>
      have hvalue := hdecode value List.mem_cons_self (values.flatMap encode)
      obtain ⟨byte, rest, hbytes⟩ := List.exists_cons_of_ne_nil (hnonempty value List.mem_cons_self)
      rw [List.flatMap_cons, hbytes, List.cons_append, List.length_cons] at hfuel
      obtain ⟨fuel, rfl⟩ := Nat.exists_eq_add_one_of_ne_zero (show fuel ≠ 0 by omega)
      rw [List.length_append] at hfuel
      have hrest := ih (fun value hmem => hdecode value (List.mem_cons_of_mem _ hmem))
        (fun value hmem => hnonempty value (List.mem_cons_of_mem _ hmem))
        (show (values.flatMap encode).length ≤ fuel by omega)
      rw [List.flatMap_cons, hbytes, List.cons_append, decodeItems]
      rw [hbytes, List.cons_append] at hvalue
      rw [hvalue]
      dsimp only [bind, Except.bind]
      rw [hrest]
      rfl

theorem decodeVec_encodeList {α : Type} {decode : Bytes → Except Error (α × Bytes)}
    {encode : α → Bytes} {values : List α}
    (hdecode : ∀ value ∈ values, ∀ rest, decode (encode value ++ rest) = .ok (value, rest))
    (hnonempty : ∀ value ∈ values, encode value ≠ [])
    (hlt : (values.flatMap encode).length < 2 ^ 64) (rest : Bytes) :
    decodeVec decode (encodeList (values.flatMap encode) ++ rest) = .ok (values, rest) := by
  rw [decodeVec, decodeBytes_list _ hlt]
  dsimp only [bind, Except.bind]
  rw [decodeItems_flatMap hdecode hnonempty (Nat.le_refl _)]
  rfl

end WasixEth.Rlp
