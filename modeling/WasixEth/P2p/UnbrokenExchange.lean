import WasixEth.P2p.KeyExchange

/-! # Bytes from anywhere

A node that waits for a connection decrypts and decodes whatever a stranger sends. It may
refuse it, but the program goes on.
-/

namespace WasixEth.KeyExchange

open Rlp

/-! ## Results -/

/-- A result other than a stop of the program. -/
def Safe {α : Type} (result : Except Failure α) : Prop := result ≠ .error .panic

theorem Safe.orError {α : Type} (result : Except String α) : Safe (orError result) := by
  cases result <;> simp [Safe, KeyExchange.orError, Except.mapError]

theorem Safe.bind {α β : Type} {result : Except Failure α} {next : α → Except Failure β}
    (h : Safe result) (hnext : ∀ value, Safe (next value)) : Safe (result >>= next) := by
  cases result with
  | error failure =>
      intro hpanic
      cases hpanic
      exact h rfl
  | ok value => exact hnext value

theorem Safe.orDecodeError {α : Type} {codec : Codec α} (h : codec.NeverPanics) (buf : Bytes) :
    Safe (orDecodeError (codec.decode buf)) := by
  unfold Safe KeyExchange.orDecodeError
  cases hread : codec.decode buf with
  | error failure =>
      cases failure with
      | refused e => simp [Except.mapError]
      | panic => exact absurd hread (h buf)
  | ok read => simp [Except.mapError]

theorem Safe.ok {α : Type} (value : α) : Safe (.ok value) := by simp [Safe]

/-- No side has stopped the program. -/
def Unbroken (connection : Connection) : Prop :=
  ∀ side, connection.stage side ≠ .failed .panic

theorem Unbroken.setStage {connection : Connection} (h : Unbroken connection) (side : Bool)
    {stage : Stage} (hstage : stage ≠ .failed .panic) :
    Unbroken (connection.setStage side stage) := by
  intro who
  unfold Connection.setStage
  rcases Bool.eq_or_eq_not who side with rfl | rfl
  · simpa using hstage
  · simpa using h (!side)

/-! ## The steps -/

section Steps

variable {SecretKey PublicKey : Type} [Secp256k1 SecretKey PublicKey] [Sha256Hash] [Aes128Ctr]

theorem safe_prepareAuth (party : Party SecretKey) (remotePk : Option PublicKey) :
    Safe (prepareAuth party remotePk) := by
  cases remotePk with
  | none => simp [Safe, prepareAuth, throw, throwThe, MonadExceptOf.throw]
  | some remotePk => exact (Safe.orError _).bind fun _ => Safe.orError _

variable [Keccak256]

theorem safe_receiveAck (party : Party SecretKey) (remotePk : Option PublicKey)
    (fullAuth ackLenBuf encryptedAck : Bytes) :
    Safe (receiveAck party remotePk fullAuth ackLenBuf encryptedAck) := by
  refine (Safe.orError _).bind fun ackRlp => ?_
  refine (Safe.orDecodeError AuthAckV4.neverPanics ackRlp).bind fun read => ?_
  refine (Safe.orError _).bind fun recipientSessionEphPk => ?_
  cases remotePk with
  | none => simp [Safe, throw, throwThe, MonadExceptOf.throw]
  | some remotePk => exact Safe.ok _

theorem safe_answerAuth (party : Party SecretKey) (authLenBuf encryptedAuth : Bytes) :
    Safe (answerAuth party authLenBuf encryptedAuth) := by
  refine (Safe.orError _).bind fun authRlp => ?_
  refine (Safe.orDecodeError AuthMsgV4.neverPanics authRlp).bind fun read => ?_
  refine (Safe.orError _).bind fun initiatorStaticPk => ?_
  refine (Safe.orError _).bind fun initiatorSessionEphPk => ?_
  exact (Safe.orError _).bind fun fullAck => Safe.ok _

namespace Setup

variable (setup : Setup SecretKey PublicKey) {connection : Connection}

omit [Keccak256] in
theorem Unbroken.begin (h : Unbroken connection) (side : Bool) :
    Unbroken (setup.begin connection side) := by
  unfold Setup.begin
  split
  next =>
    have hsafe := safe_prepareAuth setup.initiator setup.remotePk
    split
    next failure hfailure =>
      refine h.setStage side fun hpanic => hsafe ?_
      cases hpanic
      exact hfailure
    next fullAuth _ =>
      have hwritten : Unbroken (connection.write side fullAuth) := h
      exact hwritten.setStage side (by simp)
  next => exact h.setStage side (by simp)

theorem Unbroken.finish (h : Unbroken connection) (side : Bool) (own lenBuf encrypted : Bytes) :
    Unbroken (setup.finish connection side own lenBuf encrypted) := by
  unfold Setup.finish
  split
  next =>
    have hsafe := safe_receiveAck setup.initiator setup.remotePk own lenBuf encrypted
    split
    next failure hfailure =>
      refine h.setStage side fun hpanic => hsafe ?_
      cases hpanic
      exact hfailure
    next => exact h.setStage side (by simp)
  next =>
    have hsafe := safe_answerAuth setup.recipient lenBuf encrypted
    split
    next failure hfailure =>
      refine h.setStage side fun hpanic => hsafe ?_
      cases hpanic
      exact hfailure
    next fullAck _ _ =>
      have hwritten : Unbroken (connection.write side fullAck) := h
      exact hwritten.setStage side (by simp)

variable [Aes]

theorem Unbroken.step (h : Unbroken connection) (event : Event) :
    Unbroken (setup.step connection event) := by
  unfold Setup.step
  cases event with
  | arrive side count => exact h
  | poll side =>
      dsimp only
      split
      next => exact Unbroken.begin setup h side
      next =>
        split
        next => exact h
        next =>
          have hconsumed : Unbroken (connection.consume side 2) := h
          exact hconsumed.setStage side (by simp)
      next own lenBuf _ =>
        split
        next => exact h
        next =>
          have hconsumed : Unbroken (connection.consume side (fromBytes lenBuf)) := h
          exact Unbroken.finish setup hconsumed side _ _ _
      next => exact h
      next => exact h
  | send side message =>
      dsimp only
      split
      next session codec _ =>
        have hwritten : Unbroken (connection.write side (codec.writeFrame message).2) := h
        exact hwritten.setStage side (by simp)
      next => exact h

end Setup

end Steps

/-! ## Seven bytes -/

section Sample

attribute [local instance] keccak aes256 sampleCurve sha256Hash aes128Ctr

end Sample

end WasixEth.KeyExchange
