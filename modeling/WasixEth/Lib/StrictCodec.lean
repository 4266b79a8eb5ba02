import WasixEth.Lib.BigEndian
import WasixEth.Lib.Codec

/-! # Strict codecs

A strict decoder reads a value back from its encoding, whatever stands behind it, and
accepts nothing else. The strings, numbers and lists of RLP are read strictly, and so is
what is put together from them.
-/

namespace WasixEth.Rlp

/-! ## Numbers without leading zeros -/

theorem fromBytes_lt_of_length_lt {a b : Bytes} (hb : b.head? ≠ some 0)
    (h : a.length < b.length) : fromBytes a < fromBytes b := by
  cases b with
  | nil => simp at h
  | cons y rest =>
      have hy : 1 ≤ y.toNat := by
        have hne : y ≠ 0 := by simpa using hb
        have hnat : y.toNat ≠ 0 := fun hzero => hne (UInt8.toNat_inj.mp (by simpa using hzero))
        omega
      have hle : 8 * a.length ≤ 8 * rest.length := by
        rw [List.length_cons] at h
        omega
      calc fromBytes a < 2 ^ (8 * a.length) := fromBytes_lt a
        _ ≤ 2 ^ (8 * rest.length) := Nat.pow_le_pow_right (by decide) hle
        _ ≤ 2 ^ (8 * rest.length) * y.toNat := Nat.le_mul_of_pos_right _ hy
        _ ≤ 2 ^ (8 * rest.length) * y.toNat + fromBytes rest := Nat.le_add_right _ _
        _ = fromBytes (y :: rest) := (fromBytes_cons y rest).symm

theorem eq_of_fromBytes_eq {a b : Bytes} (ha : a.head? ≠ some 0) (hb : b.head? ≠ some 0)
    (h : fromBytes a = fromBytes b) : a = b := by
  rcases Nat.lt_trichotomy a.length b.length with hlt | heq | hgt
  · exact absurd h (fromBytes_lt_of_length_lt hb hlt).ne
  · exact (fromBytes_inj heq).mp h
  · exact absurd h (fromBytes_lt_of_length_lt ha hgt).ne'

theorem fromBytes_lt_of_length_le {bytes : Bytes} {width : Nat} (h : bytes.length ≤ width) :
    fromBytes bytes < 256 ^ width :=
  calc fromBytes bytes < 2 ^ (8 * bytes.length) := fromBytes_lt bytes
    _ ≤ 2 ^ (8 * width) := Nat.pow_le_pow_right (by decide) (Nat.mul_le_mul_left 8 h)
    _ = 256 ^ width := Nat.pow_mul 2 8 width

theorem uintBytes_fromBytes {bytes : Bytes} {width : Nat} (hhead : bytes.head? ≠ some 0)
    (hlength : bytes.length ≤ width) : uintBytes width (fromBytes bytes) = bytes := by
  apply eq_of_fromBytes_eq (head?_uintBytes _ _) hhead
  exact fromBytes_uintBytes (fromBytes_lt_of_length_le hlength)

theorem trimmedBytes_fromBytes {bytes : Bytes} (hhead : bytes.head? ≠ some 0)
    (hlength : bytes.length ≤ 8) : trimmedBytes (fromBytes bytes) = bytes := by
  apply eq_of_fromBytes_eq (head?_trimmedBytes _) hhead
  exact fromBytes_trimmedBytes (fromBytes_lt_of_length_le hlength)

/-! ## Headers -/

/-- A single byte that is an item of its own. -/
def OwnItem (buf : Bytes) : Prop := ∃ b rest, buf = b :: rest ∧ b.toNat < 0x80

/-- A header of its own, in front of what no single byte would be the item of. -/
def Headed (buf : Bytes) (h : Header) (after : Bytes) : Prop :=
  buf = h.encode ++ after ∧ (h = ⟨false, 1⟩ → ∀ c ∈ after.head?, 0x80 ≤ c.toNat)

theorem encode_short {b : UInt8} {list : Bool} {n : Nat} (hn : n < 56)
    (hb : b.toNat = (if list then 0xC0 else 0x80) + n) : Header.encode ⟨list, n⟩ = [b] := by
  unfold Header.encode
  rw [if_pos hn]
  congr 1
  apply UInt8.toNat_inj.mp
  cases list with
  | true =>
      simp only [if_true] at hb ⊢
      rw [toNat_add_ofNat (by simp; omega), hb]
      rfl
  | false =>
      simp only [Bool.false_eq_true, if_false] at hb ⊢
      rw [toNat_add_ofNat (by simp; omega), hb]
      rfl

theorem encode_long {b : UInt8} {list : Bool} {len : Bytes}
    (hb : b.toNat = (if list then 0xF7 else 0xB7) + len.length) (hlength : len.length ≤ 8)
    (hhead : len.head? ≠ some 0) (hlong : ¬ fromBytes len < 56) :
    Header.encode ⟨list, fromBytes len⟩ = b :: len := by
  unfold Header.encode
  rw [if_neg hlong, trimmedBytes_fromBytes hhead hlength]
  dsimp only
  congr 1
  apply UInt8.toNat_inj.mp
  cases list with
  | true =>
      simp only [if_true] at hb ⊢
      rw [toNat_add_ofNat (by simp; omega), hb]
      rfl
  | false =>
      simp only [Bool.false_eq_true, if_false] at hb ⊢
      rw [toNat_add_ofNat (by simp; omega), hb]
      rfl

/-- A header is read from nothing but its encoding. -/
theorem decodePrefix_cases {buf after : Bytes} {h : Header}
    (hread : Header.decodePrefix buf = .ok (h, after)) :
    (OwnItem buf ∧ h = ⟨false, 1⟩ ∧ after = buf) ∨ Headed buf h after := by
  cases buf with
  | nil => simp [Header.decodePrefix] at hread
  | cons b rest =>
      have hbyte := b.toNat_lt
      simp only [Header.decodePrefix] at hread
      split at hread
      next hown =>
        cases hread
        exact .inl ⟨⟨b, rest, rfl, hown⟩, rfl, rfl⟩
      next hown =>
        right
        split at hread
        next hshort =>
          split at hread
          next hone =>
            -- A header for one byte must announce a byte that needs it.
            cases rest with
            | nil => simp at hread
            | cons c rest =>
                dsimp only at hread
                split at hread
                next => cases hread
                next hc =>
                  cases hread
                  refine ⟨?_, fun _ d hd => ?_⟩
                  · rw [encode_short (b := b) (by decide) (by simpa using hone)]
                    rfl
                  · obtain rfl : c = d := by simpa using hd
                    omega
          next hone =>
            cases hread
            refine ⟨?_, fun hheader => ?_⟩
            · rw [encode_short (b := b) (by omega) (by simp; omega)]
              rfl
            · simp only [Header.mk.injEq, true_and] at hheader
              omega
        next hshort =>
          split at hread
          next hlong =>
            generalize hlist : decide (0xF8 ≤ b.toNat) = list at hread
            generalize hlen : (b.toNat - if list = true then 0xF7 else 0xB7) = lenOfLen at hread
            have hcode : b.toNat = (if list = true then 0xF7 else 0xB7) + lenOfLen := by
              cases list <;> simp at hlist hlen ⊢ <;> omega
            have height : lenOfLen ≤ 8 := by
              cases list <;> simp at hlist hlen <;> omega
            split at hread
            next => cases hread
            next hlength =>
              split at hread
              next => cases hread
              next hhead =>
                split at hread
                next => cases hread
                next hsize =>
                  cases hread
                  have htake : (rest.take lenOfLen).length = lenOfLen := by
                    rw [List.length_take]
                    omega
                  refine ⟨?_, fun hheader => ?_⟩
                  · rw [encode_long (by rw [htake]; exact hcode) (by rw [htake]; exact height)
                      hhead hsize, List.cons_append, List.take_append_drop]
                  · simp only [Header.mk.injEq] at hheader
                    omega
          next hlong =>
            cases hread
            refine ⟨?_, fun hheader => by simp at hheader⟩
            rw [encode_short (b := b) (by omega) (by simp; omega)]
            rfl

theorem decode_cases {buf after : Bytes} {h : Header}
    (hread : Header.decode buf = .ok (h, after)) :
    h.payloadLength ≤ after.length ∧
      ((OwnItem buf ∧ h = ⟨false, 1⟩ ∧ after = buf) ∨ Headed buf h after) := by
  unfold Header.decode at hread
  cases hparsed : Header.decodePrefix buf with
  | error e =>
      rw [hparsed] at hread
      cases hread
  | ok read =>
      rw [hparsed] at hread
      dsimp only at hread
      split at hread
      next => cases hread
      next hlength =>
        cases hread
        exact ⟨Nat.not_lt.mp hlength, decodePrefix_cases hparsed⟩

theorem eq_of_decode_list {buf after : Bytes} {h : Header}
    (hread : Header.decode buf = .ok (h, after)) (hlist : h.list = true) :
    h.payloadLength ≤ after.length ∧ buf = h.encode ++ after := by
  obtain ⟨hlength, ⟨-, rfl, -⟩ | ⟨hbuf, -⟩⟩ := decode_cases hread
  · simp at hlist
  · exact ⟨hlength, hbuf⟩

/-! ## Strings and lists -/

theorem eq_of_decodeBytes_string {buf bytes rest : Bytes}
    (hread : Header.decodeBytes false buf = .ok (bytes, rest)) :
    buf = encodeBytes bytes ++ rest := by
  unfold Header.decodeBytes at hread
  cases hdecode : Header.decode buf with
  | error e =>
      rw [hdecode] at hread
      cases hread
  | ok read =>
      obtain ⟨h, after⟩ := read
      rw [hdecode] at hread
      dsimp only at hread
      split at hread
      next => cases hread
      next hlist =>
        cases hread
        obtain ⟨hlength, ⟨⟨b, tail, rfl, hb⟩, rfl, rfl⟩ | ⟨rfl, hsingle⟩⟩ :=
          decode_cases hdecode
        · simp [encodeBytes, hb]
        · obtain ⟨list, n⟩ := h
          obtain rfl : list = false := by simpa using hlist
          dsimp only at hlength ⊢
          have htake : (after.take n).length = n := by
            rw [List.length_take]
            omega
          by_cases hone : n = 1
          · subst hone
            cases after with
            | nil => simp at hlength
            | cons c tail =>
                have hc := hsingle rfl c (by simp)
                simp only [List.take_succ_cons, List.take_zero, List.drop_succ_cons,
                  List.drop_zero]
                have hencode : encodeBytes [c] = Header.encode ⟨false, 1⟩ ++ [c] :=
                  if_neg (by omega)
                rw [hencode, List.append_assoc]
                rfl
          · rw [encodeBytes_of_length_ne_one (by rw [htake]; exact hone), htake,
              List.append_assoc, List.take_append_drop]

theorem eq_of_decodeBytes_list {buf payload rest : Bytes}
    (hread : Header.decodeBytes true buf = .ok (payload, rest)) :
    buf = encodeList payload ++ rest := by
  unfold Header.decodeBytes at hread
  cases hdecode : Header.decode buf with
  | error e =>
      rw [hdecode] at hread
      cases hread
  | ok read =>
      obtain ⟨h, after⟩ := read
      rw [hdecode] at hread
      dsimp only at hread
      split at hread
      next => cases hread
      next hlist =>
        cases hread
        obtain ⟨list, n⟩ := h
        obtain rfl : list = true := by simpa using hlist
        obtain ⟨hlength, rfl⟩ := eq_of_decode_list hdecode rfl
        have htake : (after.take n).length = n := by
          rw [List.length_take]
          exact Nat.min_eq_left hlength
        unfold encodeList
        dsimp only
        rw [htake, List.append_assoc, List.take_append_drop]

/-! ## Strict codecs -/

namespace Codec

variable {α β : Type}

/-- A decoder that refuses some of what it reads. -/
def tryMap (codec : Codec β) (toRaw : α → β) (ofRaw : β → Except Error α) : Codec α where
  encode value := codec.encode (toRaw value)
  decode buf := do
    let (raw, rest) ← codec.decode buf
    let value ← refuse (ofRaw raw)
    return (value, rest)
  length value := codec.length (toRaw value)

/-- Nothing at all. -/
def nothing : Codec Unit where
  encode _ := []
  decode buf := .ok ((), buf)
  length _ := 0

/-- A value behind a list header that announces as many bytes as reading the value takes. -/
def sized (mismatch : Nat → Nat → Error) (codec : Codec α) : Codec α where
  encode := codec.listed.encode
  decode buf := do
    let (h, buf) ← refuse (Header.decode buf)
    if !h.list then .error (.refused .unexpectedString) else
    let (value, rest) ← codec.decode buf
    let consumed := buf.length - rest.length
    if consumed ≠ h.payloadLength then
      .error (.refused (mismatch h.payloadLength consumed))
    else return (value, rest)
  length := codec.listed.length

/-- What fits is read back, only what was written is read, and reading stops nothing. -/
structure Strict (codec : Codec α) : Prop where
  roundTrips : ∀ {value}, codec.Fits value → codec.RoundTrips value
  eq_append : ∀ {buf value rest},
    codec.decode buf = .ok (value, rest) → buf = codec.encode value ++ rest
  length_eq : ∀ value, codec.length value = (codec.encode value).length
  neverPanics : ∀ buf, codec.decode buf ≠ .error .panic

/-- Every value takes up a byte. -/
def Occupied (codec : Codec α) : Prop := ∀ value, codec.encode value ≠ []

theorem exists_of_bind_ok {ε : Type} {read : Except ε α} {next : α → Except ε β} {value : β}
    (h : read >>= next = .ok value) : ∃ first, read = .ok first ∧ next first = .ok value := by
  cases read with
  | error e => cases h
  | ok first => exact ⟨first, rfl, h⟩

theorem panic_of_bind {read : Except Failure α} {next : α → Except Failure β}
    (h : read >>= next = .error .panic) :
    read = .error .panic ∨ ∃ first, read = .ok first ∧ next first = .error .panic := by
  cases read with
  | error e =>
      cases h
      exact .inl rfl
  | ok first => exact .inr ⟨first, rfl, h⟩

theorem exists_of_map_ok {read : Except Failure α} {f : α → β} {value : β}
    (h : read.map f = .ok value) : ∃ first, read = .ok first ∧ f first = value := by
  cases read with
  | error e => cases h
  | ok first =>
      cases h
      exact ⟨first, rfl, rfl⟩

theorem panic_of_map {read : Except Failure α} {f : α → β} (h : read.map f = .error .panic) :
    read = .error .panic := by
  cases read with
  | error e =>
      cases h
      rfl
  | ok first => cases h

/-! ## Single items -/

theorem exists_of_refuse_ok {result : Except Error α} {value : α}
    (h : refuse result = .ok value) : result = .ok value := by
  cases result with
  | error e => cases h
  | ok read =>
      cases h
      rfl

theorem refuse_ne_panic (result : Except Error α) : refuse result ≠ .error .panic := by
  cases result <;> simp [refuse, Except.mapError]

theorem occupied_bytes : Occupied bytes := by
  intro value hnil
  have hpos := bytesLength_pos value
  rw [← length_encodeBytes] at hpos
  simp [show encodeBytes value = [] from hnil] at hpos

theorem strict_bytes : Strict bytes where
  roundTrips := roundTrips_bytes
  eq_append h := eq_of_decodeBytes_string (exists_of_refuse_ok h)
  length_eq value := (length_encodeBytes value).symm
  neverPanics _ := refuse_ne_panic _

theorem occupied_fixed (n : Nat) : Occupied (fixed n) := fun value => occupied_bytes value.bytes

theorem strict_fixed {n : Nat} (hn : n < 2 ^ 64) : Strict (fixed n) where
  roundTrips _ := roundTrips_fixed hn _
  eq_append := by
    intro buf value rest h
    have hread := exists_of_refuse_ok h
    unfold decodeFixed at hread
    cases hbytes : Header.decodeBytes false buf with
    | error e =>
        rw [hbytes] at hread
        cases hread
    | ok read =>
        rw [hbytes] at hread
        dsimp only at hread
        split at hread
        next =>
          cases hread
          exact eq_of_decodeBytes_string hbytes
        next => cases hread
  length_eq value := (length_encodeBytes value.bytes).symm
  neverPanics _ := refuse_ne_panic _

theorem eq_of_decodeInt {width n : Nat} {buf rest : Bytes}
    (hread : decodeInt width buf = .ok (n, rest)) :
    n < 256 ^ width ∧ buf = encodeUint width n ++ rest := by
  unfold decodeInt at hread
  cases hbytes : Header.decodeBytes false buf with
  | error e =>
      rw [hbytes] at hread
      cases hread
  | ok read =>
      rw [hbytes] at hread
      dsimp only at hread
      unfold staticLeftPad at hread
      split at hread
      next => cases hread
      next hpad =>
        cases hread
        split at hpad
        next => cases hpad
        next hlength =>
          split at hpad
          next => cases hpad
          next hhead =>
            cases hpad
            have hle := Nat.not_lt.mp hlength
            refine ⟨fromBytes_lt_of_length_le hle, ?_⟩
            unfold encodeUint
            rw [uintBytes_fromBytes hhead hle]
            exact eq_of_decodeBytes_string hbytes

/-- A machine integer of some bytes. -/
theorem strict_uint {width : Nat} (hwidth : width < 2 ^ 64) {toNat : α → Nat}
    {ofNat : Nat → α} (hlt : ∀ value, toNat value < 256 ^ width)
    (hof : ∀ value, ofNat (toNat value) = value)
    (hto : ∀ n, n < 256 ^ width → toNat (ofNat n) = n) :
    Strict ((uint width).map toNat ofNat) where
  roundTrips _ := (roundTrips_uint (hlt _) hwidth).map (hof _)
  eq_append := by
    intro buf value rest hread
    obtain ⟨⟨n, after⟩, hint, hvalue⟩ := exists_of_map_ok hread
    cases hvalue
    obtain ⟨hn, rfl⟩ := eq_of_decodeInt (exists_of_refuse_ok hint)
    change _ = encodeUint width (toNat (ofNat n)) ++ rest
    rw [hto n hn]
  length_eq value := (length_encodeUint width (toNat value)).symm
  neverPanics _ hpanic := refuse_ne_panic _ (panic_of_map hpanic)

theorem occupied_uint (width : Nat) (toNat : α → Nat) (ofNat : Nat → α) :
    Occupied ((uint width).map toNat ofNat) :=
  fun value => occupied_bytes (uintBytes width (toNat value))

/-! ## Values put together -/

theorem decode_tryMap (codec : Codec β) (toRaw : α → β) (ofRaw : β → Except Error α)
    (buf : Bytes) : (codec.tryMap toRaw ofRaw).decode buf = (codec.decode buf >>= fun read =>
      refuse (ofRaw read.1) >>= fun value => .ok (value, read.2)) := rfl

theorem Strict.tryMap {codec : Codec β} (h : codec.Strict) {toRaw : α → β}
    {ofRaw : β → Except Error α} (hof : ∀ value, ofRaw (toRaw value) = .ok value)
    (hto : ∀ raw value, ofRaw raw = .ok value → toRaw value = raw) :
    (codec.tryMap toRaw ofRaw).Strict where
  roundTrips := by
    intro value hfits
    have hraw : codec.RoundTrips (toRaw value) := h.roundTrips hfits
    refine ⟨fun rest => ?_, hraw.length_eq⟩
    rw [decode_tryMap]
    change (codec.decode (codec.encode (toRaw value) ++ rest) >>= _) = _
    rw [hraw.reads]
    change (refuse (ofRaw (toRaw value)) >>= _) = _
    rw [hof]
    rfl
  eq_append := by
    intro buf value rest hread
    rw [decode_tryMap] at hread
    obtain ⟨⟨raw, after⟩, hraw, hread⟩ := exists_of_bind_ok hread
    obtain ⟨value', hvalue, hread⟩ := exists_of_bind_ok hread
    cases hread
    change _ = codec.encode (toRaw value) ++ after
    rw [hto raw value (exists_of_refuse_ok hvalue)]
    exact h.eq_append hraw
  length_eq value := h.length_eq (toRaw value)
  neverPanics := by
    intro buf hpanic
    rw [decode_tryMap] at hpanic
    rcases panic_of_bind hpanic with hraw | ⟨read, -, hpanic⟩
    · exact h.neverPanics buf hraw
    · rcases panic_of_bind hpanic with hvalue | ⟨value, -, hpanic⟩
      · exact refuse_ne_panic _ hvalue
      · cases hpanic

/-- The same values by other names. -/
theorem Strict.map {codec : Codec β} (h : codec.Strict) {toRaw : α → β} {ofRaw : β → α}
    (hof : ∀ value, ofRaw (toRaw value) = value) (hto : ∀ raw, toRaw (ofRaw raw) = raw) :
    (codec.map toRaw ofRaw).Strict where
  roundTrips hfits := (h.roundTrips hfits).map (hof _)
  eq_append := by
    intro buf value rest hread
    obtain ⟨⟨raw, after⟩, hraw, hvalue⟩ := exists_of_map_ok hread
    cases hvalue
    change _ = codec.encode (toRaw (ofRaw raw)) ++ rest
    rw [hto]
    exact h.eq_append hraw
  length_eq value := h.length_eq (toRaw value)
  neverPanics buf hpanic := h.neverPanics buf (panic_of_map hpanic)

theorem strict_nothing : Strict nothing where
  roundTrips _ := ⟨fun _ => rfl, rfl⟩
  eq_append h := by
    cases h
    rfl
  length_eq _ := rfl
  neverPanics _ := by simp [nothing]

theorem decode_pair (first : Codec α) (second : Codec β) (buf : Bytes) :
    (first.pair second).decode buf = (first.decode buf >>= fun read =>
      second.decode read.2 >>= fun read' => .ok ((read.1, read'.1), read'.2)) := rfl

theorem Strict.pair {first : Codec α} {second : Codec β} (hfirst : first.Strict)
    (hsecond : second.Strict) : (first.pair second).Strict where
  roundTrips hfits := (hfirst.roundTrips hfits.fst).pair (hsecond.roundTrips hfits.snd)
  eq_append := by
    intro buf value rest hread
    rw [decode_pair] at hread
    obtain ⟨⟨a, after⟩, hone, hread⟩ := exists_of_bind_ok hread
    obtain ⟨⟨b, rest'⟩, htwo, hread⟩ := exists_of_bind_ok hread
    cases hread
    change _ = (first.encode a ++ second.encode b) ++ rest'
    have hafter : after = second.encode b ++ rest' := hsecond.eq_append htwo
    rw [hfirst.eq_append hone, hafter, List.append_assoc]
  length_eq value := by
    change first.length value.1 + second.length value.2 =
      (first.encode value.1 ++ second.encode value.2).length
    rw [hfirst.length_eq, hsecond.length_eq, List.length_append]
  neverPanics := by
    intro buf hpanic
    rw [decode_pair] at hpanic
    rcases panic_of_bind hpanic with hone | ⟨read, -, hpanic⟩
    · exact hfirst.neverPanics buf hone
    · rcases panic_of_bind hpanic with htwo | ⟨read', -, hpanic⟩
      · exact hsecond.neverPanics read.2 htwo
      · cases hpanic

/-! ## Lists -/

theorem occupied_list {codec : Codec α} {length : α → Nat} {encode : α → Bytes}
    (h : ∀ value, codec.encode value = Header.encode ⟨true, length value⟩ ++ encode value) :
    codec.Occupied := by
  intro value hnil
  rw [h] at hnil
  exact header_append_ne_nil _ _ hnil

theorem occupied_vec (item : Codec α) : item.vec.Occupied := occupied_list fun _ => rfl

theorem occupied_sized (mismatch : Nat → Nat → Error) (codec : Codec α) :
    (codec.sized mismatch).Occupied := occupied_list fun _ => rfl

theorem readAll_cons (read : Bytes → Except Failure (α × Bytes)) (fuel : Nat) (byte : UInt8)
    (bytes : Bytes) : readAll read (fuel + 1) (byte :: bytes) = (read (byte :: bytes) >>= fun one =>
      readAll read fuel one.2 >>= fun values => .ok (one.1 :: values)) := rfl

/-- Items that take up a byte each are read within the fuel there is. -/
theorem Strict.readAll {item : Codec α} (h : item.Strict) (hoccupied : item.Occupied)
    {fuel : Nat} {payload : Bytes} (hfuel : payload.length ≤ fuel) :
    Rlp.readAll item.decode fuel payload ≠ .error .panic ∧
      ∀ {values}, Rlp.readAll item.decode fuel payload = .ok values →
        payload = values.flatMap item.encode := by
  induction fuel generalizing payload with
  | zero =>
      obtain rfl := List.length_eq_zero_iff.mp (Nat.le_zero.mp hfuel)
      refine ⟨by simp [Rlp.readAll], fun hread => ?_⟩
      cases hread
      rfl
  | succ fuel ih =>
      cases payload with
      | nil =>
          refine ⟨by simp [Rlp.readAll], fun hread => ?_⟩
          cases hread
          rfl
      | cons byte bytes =>
          have hshorter : ∀ {value rest}, item.decode (byte :: bytes) = .ok (value, rest) →
              rest.length ≤ fuel := by
            intro value rest hone
            have hpos := List.length_pos_iff.mpr (hoccupied value)
            rw [h.eq_append hone, List.length_append] at hfuel
            omega
          rw [readAll_cons]
          constructor
          · intro hpanic
            rcases panic_of_bind hpanic with hone | ⟨one, hone, hpanic⟩
            · exact h.neverPanics _ hone
            · rcases panic_of_bind hpanic with hmore | ⟨values, -, hpanic⟩
              · exact (ih (hshorter hone)).1 hmore
              · cases hpanic
          · intro values hread
            obtain ⟨one, hone, hread⟩ := exists_of_bind_ok hread
            obtain ⟨values', hmore, hread⟩ := exists_of_bind_ok hread
            cases hread
            rw [h.eq_append hone, List.flatMap_cons, ← (ih (hshorter hone)).2 hmore]

theorem Strict.totalLength {item : Codec α} (h : item.Strict) (values : List α) :
    item.totalLength values = (values.flatMap item.encode).length :=
  totalLength_eq fun value _ => h.length_eq value

theorem decode_vec (item : Codec α) (buf : Bytes) :
    item.vec.decode buf = (refuse (Header.decodeBytes true buf) >>= fun read =>
      Rlp.readAll item.decode read.1.length read.1 >>= fun values => .ok (values, read.2)) := rfl

theorem Strict.vec {item : Codec α} (h : item.Strict) (hoccupied : item.Occupied) :
    item.vec.Strict where
  roundTrips hfits :=
    roundTrips_vec (fun value hmem => h.roundTrips (hfits.of_mem value hmem))
      (fun value _ => hoccupied value) hfits
  eq_append := by
    intro buf values rest hread
    rw [decode_vec] at hread
    obtain ⟨⟨payload, after⟩, hpayload, hread⟩ := exists_of_bind_ok hread
    obtain ⟨values', hitems, hread⟩ := exists_of_bind_ok hread
    cases hread
    have hbytes : payload = values.flatMap item.encode :=
      (h.readAll hoccupied (Nat.le_refl _)).2 hitems
    have hencode : item.vec.encode values = encodeList payload := by
      unfold encodeList
      rw [hbytes, ← h.totalLength]
      rfl
    rw [hencode]
    exact eq_of_decodeBytes_list (exists_of_refuse_ok hpayload)
  length_eq values := (length_header_append (h.totalLength values).symm).symm
  neverPanics := by
    intro buf hpanic
    rw [decode_vec] at hpanic
    rcases panic_of_bind hpanic with hpayload | ⟨read, -, hpanic⟩
    · exact refuse_ne_panic _ hpayload
    · rcases panic_of_bind hpanic with hitems | ⟨values, -, hpanic⟩
      · exact (h.readAll hoccupied (Nat.le_refl _)).1 hitems
      · cases hpanic

/-! ## Records -/

section Records

variable {codec : Codec α} {mismatch : Nat → Nat → Error}

/-- What reading a record takes apart. -/
theorem decode_sized (mismatch : Nat → Nat → Error) (codec : Codec α) (buf : Bytes) :
    (codec.sized mismatch).decode buf = (refuse (Header.decode buf) >>= fun read =>
      if !read.1.list then .error (.refused .unexpectedString) else
      codec.decode read.2 >>= fun read' =>
        if read.2.length - read'.2.length ≠ read.1.payloadLength then
          .error (.refused (mismatch read.1.payloadLength (read.2.length - read'.2.length)))
        else .ok read') := rfl

theorem Strict.sized (h : codec.Strict) : (codec.sized mismatch).Strict where
  roundTrips := by
    intro value hfits
    have hvalue : codec.RoundTrips value := h.roundTrips hfits.listed
    refine ⟨fun rest => ?_, (length_header_append hvalue.length_eq.symm).symm⟩
    have hlt := hvalue.length_lt hfits.listed
    rw [decode_sized]
    change (refuse (Header.decode ((Header.encode ⟨true, codec.length value⟩ ++
      codec.encode value) ++ rest)) >>= _) = _
    rw [List.append_assoc, decode_header hvalue.length_eq.symm hlt]
    change (codec.decode (codec.encode value ++ rest) >>= _) = _
    rw [hvalue.reads]
    change (if (codec.encode value ++ rest).length - rest.length ≠ codec.length value then _
      else Except.ok (value, rest)) = _
    rw [if_neg]
    rw [List.length_append, Nat.add_sub_cancel, hvalue.length_eq]
    exact fun hne => hne rfl
  eq_append := by
    intro buf value rest hread
    rw [decode_sized] at hread
    obtain ⟨⟨⟨list, n⟩, after⟩, hheader, hread⟩ := exists_of_bind_ok hread
    cases list with
    | false => cases hread
    | true =>
        obtain ⟨⟨value', rest'⟩, hvalue, hread⟩ := exists_of_bind_ok hread
        dsimp only at hread
        split at hread
        next => cases hread
        next hconsumed =>
          cases hread
          have hafter : after = codec.encode value ++ rest := h.eq_append hvalue
          have hn : codec.length value = n := by
            rw [h.length_eq, ← Decidable.not_not.mp hconsumed, hafter, List.length_append,
              Nat.add_sub_cancel]
          rw [(eq_of_decode_list (exists_of_refuse_ok hheader) rfl).2, hafter, ← hn]
          exact (List.append_assoc _ _ _).symm
  length_eq value := (length_header_append (h.length_eq value).symm).symm
  neverPanics := by
    intro buf hpanic
    rw [decode_sized] at hpanic
    rcases panic_of_bind hpanic with hheader | ⟨⟨⟨list, n⟩, after⟩, -, hpanic⟩
    · exact refuse_ne_panic _ hheader
    · cases list with
      | false => cases hpanic
      | true =>
          rcases panic_of_bind hpanic with hvalue | ⟨read, -, hpanic⟩
          · exact h.neverPanics after hvalue
          · dsimp only at hpanic
            split at hpanic
            next => cases hpanic
            next => cases hpanic

end Records

/-! ## Sizes -/

section Sizes

variable {α β : Type} {codec : Codec α} {value : α} {m n : Nat}

/-- The value takes up that many bytes at most. -/
def Takes (codec : Codec α) (value : α) (n : Nat) : Prop := (codec.encode value).length ≤ n

instance instDecidableTakes : Decidable (codec.Takes value n) :=
  inferInstanceAs (Decidable ((codec.encode value).length ≤ n))

theorem takes_fixed (value : FixedBytes n) : (fixed n).Takes value (n + 9) := by
  unfold Takes
  change (encodeBytes value.bytes).length ≤ n + 9
  have hle := bytesLength_le value.bytes
  rw [value.length_eq] at hle
  rw [length_encodeBytes]
  exact hle

theorem takes_uint (width value : Nat) : (uint width).Takes value (width + 9) := by
  unfold Takes
  change (encodeBytes (uintBytes width value)).length ≤ width + 9
  rw [length_encodeBytes]
  exact (bytesLength_le _).trans (Nat.add_le_add_right (length_uintBytes_le width value) 9)

theorem Takes.map {codec : Codec β} {toRaw : α → β} {ofRaw : β → α}
    (h : codec.Takes (toRaw value) n) : (codec.map toRaw ofRaw).Takes value n := h

theorem Takes.pair {first : Codec α} {second : Codec β} {b : β}
    (hfirst : first.Takes value m) (hsecond : second.Takes b n) :
    (first.pair second).Takes (value, b) (m + n) := by
  unfold Takes at *
  change (first.encode value ++ second.encode b).length ≤ m + n
  rw [List.length_append]
  exact Nat.add_le_add hfirst hsecond

theorem Takes.sized {mismatch : Nat → Nat → Error} (h : codec.Takes value n) :
    (codec.sized mismatch).Takes value (9 + n) := by
  unfold Takes at *
  change (Header.encode ⟨true, codec.length value⟩ ++ codec.encode value).length ≤ 9 + n
  rw [List.length_append, length_encode]
  exact Nat.add_le_add (lengthOfLength_le _) h

theorem Takes.fits (h : codec.Takes value n) (hn : n < 2 ^ 63) : codec.Fits value :=
  Nat.lt_of_le_of_lt h hn

end Sizes

end Codec

end WasixEth.Rlp
