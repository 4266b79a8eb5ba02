import Mathlib.Data.Set.Finite.List
import WasixEth.Execution.BlockHash
import WasixEth.Lib.Pointers

/-! # Following delegations

The code of an account may only name another account, whose code and storage are then
read instead. Nothing bounds the number of accounts on the way, so a read returns if and
only if the delegations do not lead back to an account.
-/

namespace WasixEth

open Pointers Storage BatchWriter

instance UInt8.instFinite : Finite UInt8 :=
  Finite.of_injective UInt8.toFin fun _ _ => UInt8.toFin_inj.mp

instance : Finite Address := by
  have hfinite : Finite {bytes : Bytes // bytes.length = 20} :=
    (List.finite_length_eq UInt8 20).to_subtype
  refine Finite.of_injective (fun address : Address => (⟨address.bytes, address.length_eq⟩ :
    {bytes : Bytes // bytes.length = 20})) fun address address' heq => ?_
  exact Address.ext (Subtype.ext_iff.mp heq)

namespace SputnikBackend

section Reads

variable [Keccak256]

/-- The code of the account itself. -/
def ownCode (backend : SputnikBackend) (address : Address) : Bytes :=
  match backend.account address with
  | some account =>
      if account.codeHash = B256.zero ∨ account.codeHash = keccak256Empty then []
      else (backend.bytecode account.codeHash).getD []
  | none => []

/-- `SputnikBackend::code`, which follows delegations for as long as there are any. -/
def code (backend : SputnikBackend) : Nat → Address → Option Bytes
  | 0, _ => none
  | fuel + 1, address =>
      match backend.checkDelegation address with
      | some target => backend.code fuel target
      | none => some (backend.ownCode address)

variable {backend : SputnikBackend} {address : Address}

theorem code_eq_follow (fuel : Nat) :
    backend.code fuel address =
      (follow backend.checkDelegation fuel address).map backend.ownCode := by
  induction fuel generalizing address with
  | zero => rfl
  | succ fuel ih =>
      unfold code follow
      cases backend.checkDelegation address with
      | some target => exact ih
      | none => rfl

theorem storageAt_eq_follow (fuel : Nat) (slot : B256) :
    backend.storageAt fuel address slot =
      (follow backend.checkDelegation fuel address).map fun last => backend.storage last slot := by
  induction fuel generalizing address with
  | zero => rfl
  | succ fuel ih =>
      unfold storageAt follow
      cases backend.checkDelegation address with
      | some target => exact ih
      | none => rfl

/-- The code of the account and each of its slots are read with some number of calls. -/
structure Terminates (backend : SputnikBackend) (address : Address) : Prop where
  code : ∃ fuel, (backend.code fuel address).isSome
  storage : ∀ slot, ∃ fuel, (backend.storageAt fuel address slot).isSome

theorem terminates_iff (backend : SputnikBackend) (address : Address) :
    backend.Terminates address ↔ NeverRepeats backend.checkDelegation address := by
  rw [← exists_follow_iff]
  constructor
  · rintro ⟨⟨fuel, hcode⟩, -⟩
    rw [code_eq_follow, Option.isSome_map] at hcode
    exact ⟨fuel, hcode⟩
  · rintro ⟨fuel, hends⟩
    refine ⟨⟨fuel, ?_⟩, fun slot => ⟨fuel, ?_⟩⟩
    · rw [code_eq_follow, Option.isSome_map]
      exact hends
    · rw [storageAt_eq_follow, Option.isSome_map]
      exact hends

end Reads

section Sample

attribute [local instance] keccak

/-- The code that delegates to an account. -/
def delegationTo (target : Address) : Bytes := [0xef, 0x01, 0x00] ++ target.bytes

/-- The backend of a state with one account, which delegates to itself. -/
def selfDelegating : SputnikBackend where
  account address := if address = Address.trailing 1 then
    some ⟨1, 0, B256.zero, keccak256 (delegationTo (Address.trailing 1))⟩ else none
  storage _ _ := 0
  bytecode hash := if hash = keccak256 (delegationTo (Address.trailing 1)) then
    some (delegationTo (Address.trailing 1)) else none
  environment := ⟨1, 12, 30000000, Address.trailing 1, 0, 7, none, 1, 1, []⟩
  hotAccounts := []
  hotStorage := []
  origin := Address.trailing 1

/-- An account that delegates to itself is never read. -/
theorem not_terminates_selfDelegating : ¬ selfDelegating.Terminates (Address.trailing 1) := by
  have hself : selfDelegating.checkDelegation (Address.trailing 1) =
      some (Address.trailing 1) := by decide +kernel
  have hnever : ∀ fuel, selfDelegating.code fuel (Address.trailing 1) = none := by
    intro fuel
    induction fuel with
    | zero => rfl
    | succ fuel ih =>
        unfold code
        rw [hself]
        exact ih
  rintro ⟨⟨fuel, hcode⟩, -⟩
  rw [hnever fuel] at hcode
  cases hcode

end Sample

end SputnikBackend

end WasixEth
