import WasixEth.Lib.RlpUint
import WasixEth.Storage.Database

/-! # Values of the state tries

Accounts and slot values are the leaves of the state tries, as RLP. -/

namespace WasixEth.Storage

open Rlp

namespace TrieAccount

def payload (account : TrieAccount) : Bytes :=
  encodeUint 8 account.nonce.toNat ++ encodeUint 32 account.balance.toNat ++
    encodeBytes account.storageRoot.bytes ++ encodeBytes account.codeHash.bytes

def encode (account : TrieAccount) : Bytes := encodeList account.payload

end TrieAccount

def decodeB256 (buf : Bytes) : Except Error (B256 × Bytes) :=
  match decodeBytes buf with
  | .error e => .error e
  | .ok (bytes, rest) =>
      if h : bytes.length = 32 then .ok (⟨bytes, h⟩, rest) else .error .unexpectedLength

/-- Read an account from the front of a buffer. -/
def TrieAccount.decode (buf : Bytes) : Except Error TrieAccount := do
  let (header, started) ← Header.decode buf
  if !header.list then throw .unexpectedString
  let (nonce, rest) ← decodeUint 8 started
  let (balance, rest) ← decodeUint 32 rest
  let (storageRoot, rest) ← decodeB256 rest
  let (codeHash, rest) ← decodeB256 rest
  let consumed := started.length - rest.length
  if consumed ≠ header.payloadLength then
    throw (.listLengthMismatch header.payloadLength consumed)
  return ⟨UInt64.ofNat nonce, BitVec.ofNat 256 balance, storageRoot, codeHash⟩

/-- `alloy_rlp::Encodable::encode` of a slot value. -/
def encodeU256 (value : U256) : Bytes := encodeUint 32 value.toNat

def decodeU256 (buf : Bytes) : Except Error U256 :=
  (decodeUint 32 buf).map fun read => BitVec.ofNat 256 read.1

/-! ## Round trips -/

theorem decodeB256_encodeBytes (word : B256) (rest : Bytes) :
    decodeB256 (encodeBytes word.bytes ++ rest) = .ok (word, rest) := by
  have hlength := word.length_eq
  rw [decodeB256, decodeBytes_encodeBytes _ (by omega)]
  simp [hlength]

theorem decodeU256_encodeU256 (value : U256) : decodeU256 (encodeU256 value) = .ok value := by
  have hread : decodeUint 32 (encodeUint 32 value.toNat ++ []) = .ok (value.toNat, []) :=
    decodeUint_encodeUint value.isLt (by omega) []
  rw [List.append_nil] at hread
  rw [decodeU256, encodeU256, hread]
  simp [Except.map]

namespace TrieAccount

variable (account : TrieAccount)

theorem length_payload_le : account.payload.length ≤ 164 := by
  have hnonce := length_uintBytes_le 8 account.nonce.toNat
  have hbalance := length_uintBytes_le 32 account.balance.toNat
  have hroot := account.storageRoot.length_eq
  have hcode := account.codeHash.length_eq
  have hlength : ∀ bytes : Bytes, bytes.length ≤ 32 → (encodeBytes bytes).length ≤ 41 := by
    intro bytes hle
    rw [length_encodeBytes]
    have := lengthOfLength_le bytes.length
    have := lengthOfLength_le 1
    unfold bytesLength
    split
    · split <;> omega
    · omega
  have h1 := hlength _ (hnonce.trans (by omega))
  have h2 := hlength _ hbalance
  have h3 := hlength _ hroot.le
  have h4 := hlength _ hcode.le
  simp only [payload, List.length_append, encodeUint]
  omega

theorem length_payload_lt : account.payload.length < 2 ^ 64 := by
  have := account.length_payload_le
  omega

theorem length_encode_lt : account.encode.length < 2 ^ 63 := by
  have hpayload := account.length_payload_le
  have hheader := lengthOfLength_le account.payload.length
  rw [encode, encodeList, List.length_append, length_encode]
  dsimp only
  omega

theorem decode_encode : decode account.encode = .ok account := by
  have hheader : Header.decode (account.encode ++ []) =
      .ok (⟨true, account.payload.length⟩, account.payload ++ []) := by
    rw [encode, encodeList, List.append_assoc]
    exact Rlp.decode_encode ⟨rfl, account.length_payload_lt, by simp⟩ []
  rw [List.append_nil, List.append_nil] at hheader
  have hnonce : account.nonce.toNat < 256 ^ 8 := account.nonce.toNat_lt
  simp only [decode, hheader, payload, List.append_assoc, Except.bind, bind,
    decodeUint_encodeUint hnonce (by omega : 8 < 2 ^ 64),
    decodeUint_encodeUint account.balance.isLt (by omega : 32 < 2 ^ 64), decodeB256_encodeBytes]
  have hcode : decodeB256 (encodeBytes account.codeHash.bytes) = .ok (account.codeHash, []) := by
    have hread := decodeB256_encodeBytes account.codeHash []
    rwa [List.append_nil] at hread
  simp [hcode, pure, Except.pure]

end TrieAccount

end WasixEth.Storage
