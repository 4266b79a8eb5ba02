import WasixEth.P2p.KeyExchange

/-! # Runs of the key exchange

What both sides make of the two packets is given. However the bytes are cut up and
whoever goes on first, what a side has read and has still to read is what the other has
written; neither side fails, and both get through.
-/

namespace WasixEth.KeyExchange

open Rlp RlpxFrameCodec

/-! ## One side goes on -/

namespace Connection

variable (connection : Connection) (side : Bool) (count : Nat) (out : Bytes) (stage : Stage)

/-- A side reads some bytes, writes some and is in another stage. -/
def advance : Connection := ((connection.consume side count).write side out).setStage side stage

@[simp] theorem stage_advance : (connection.advance side count out stage).stage side = stage := by
  simp [advance, setStage]

@[simp] theorem stage_advance_other :
    (connection.advance side count out stage).stage (!side) = connection.stage (!side) := by
  simp [advance, setStage, write, consume]

@[simp] theorem incoming_advance : (connection.advance side count out stage).incoming side =
    (connection.incoming side).drop count := by
  simp [advance, setStage, write, consume]

@[simp] theorem incoming_advance_other :
    (connection.advance side count out stage).incoming (!side) = connection.incoming (!side) := by
  simp [advance, setStage, write, consume]

@[simp] theorem wire_advance :
    (connection.advance side count out stage).wire side = connection.wire side := by
  simp [advance, setStage, write, consume]

@[simp] theorem wire_advance_other :
    (connection.advance side count out stage).wire (!side) = connection.wire (!side) ++ out := by
  simp [advance, setStage, write, consume]

@[simp] theorem sent_advance :
    (connection.advance side count out stage).sent = connection.sent :=
  rfl

theorem advance_nothing : connection.advance side 0 [] stage = connection.setStage side stage := by
  simp [advance, setStage, write, consume]

theorem advance_write :
    connection.advance side 0 out stage = (connection.write side out).setStage side stage := by
  simp [advance, setStage, write, consume]

theorem advance_consume : connection.advance side count [] stage =
    (connection.consume side count).setStage side stage := by
  simp [advance, setStage, write, consume]

end Connection

variable {SecretKey PublicKey : Type} [Secp256k1 SecretKey PublicKey] [Sha256Hash] [Aes128Ctr]
  [Keccak256]

/-! ## An exchange without the connection -/

/-- Both packets, each with its size in front, and what both sides make of them. -/
structure Exchange (setup : Setup SecretKey PublicKey) where
  packet : Bool → Bytes
  session : Bool → Established
  length_packet : ∀ side, 2 ≤ (packet side).length
  announced : ∀ side, fromBytes ((packet side).take 2) = ((packet side).drop 2).length
  prepared : prepareAuth setup.initiator setup.remotePk = .ok (packet true)
  answered : answerAuth setup.recipient ((packet true).take 2) ((packet true).drop 2) =
    .ok (packet false, session false)
  received : receiveAck setup.initiator setup.remotePk (packet true) ((packet false).take 2)
    ((packet false).drop 2) = .ok (session true)

namespace Exchange

variable [Aes] {setup : Setup SecretKey PublicKey} (x : Exchange setup)

/-- What a side writes before it reads. -/
def opening (side : Bool) : Bytes := if side then x.packet true else []

/-- The codec that a side starts with. -/
def codec (side : Bool) : RlpxFrameCodec := .new (x.session side).secrets

def frames (side : Bool) (sent : List Message) : Bytes := ((x.codec side).writeAll sent).2

/-- A stage that a side can be in, given what it has sent. -/
def Valid (side : Bool) (sent : List Message) : Stage → Prop
  | .start => sent = []
  | .awaitingLength own => own = x.opening side ∧ sent = []
  | .awaitingPacket own lenBuf =>
      own = x.opening side ∧ lenBuf = (x.packet (!side)).take 2 ∧ sent = []
  | .done session codec => session = x.session side ∧ codec = ((x.codec side).writeAll sent).1
  | .failed _ => False

/-- All that a side has written. -/
def written (side : Bool) (sent : List Message) : Stage → Bytes
  | .start => []
  | .awaitingLength own => own
  | .awaitingPacket own _ => own
  | .done _ _ => x.packet side ++ x.frames side sent
  | .failed _ => []

/-- All that a side has read. -/
def consumed (side : Bool) : Stage → Bytes
  | .awaitingPacket _ lenBuf => lenBuf
  | .done _ _ => x.packet (!side)
  | _ => []

/-- What a side has read and what it has still to read is what the other has written. -/
structure Sound (connection : Connection) : Prop where
  valid : ∀ side, x.Valid side (connection.sent side) (connection.stage side)
  bytes : ∀ side, x.consumed side (connection.stage side) ++
    (connection.incoming side ++ connection.wire side) =
      x.written (!side) (connection.sent (!side)) (connection.stage (!side))

variable {x} {connection : Connection} {side : Bool}

theorem sound_opened : x.Sound .opened where
  valid _ := rfl
  bytes _ := rfl

/-- A side has written nothing, or its packet and the frames it has sent. -/
theorem written_cases {sent : List Message} {stage : Stage} (h : x.Valid side sent stage) :
    x.written side sent stage = [] ∨
      x.written side sent stage = x.packet side ++ x.frames side sent := by
  have hopening : x.opening side = [] ∨ x.opening side = x.packet side ++ x.frames side [] := by
    cases side with
    | false => exact .inl rfl
    | true => exact .inr (List.append_nil _).symm
  cases stage with
  | start => exact .inl rfl
  | awaitingLength own =>
      obtain ⟨rfl, rfl⟩ := h
      exact hopening
  | awaitingPacket own lenBuf =>
      obtain ⟨rfl, -, rfl⟩ := h
      exact hopening
  | done session codec => exact .inr rfl
  | failed failure => exact .inl rfl

/-- Where a side finds anything to read it finds the packet of the other. -/
theorem Sound.reads_packet (h : x.Sound connection) (side : Bool)
    (hread : x.consumed side (connection.stage side) ++
      (connection.incoming side ++ connection.wire side) ≠ []) :
    x.consumed side (connection.stage side) ++
      (connection.incoming side ++ connection.wire side) =
        x.packet (!side) ++ x.frames (!side) (connection.sent (!side)) := by
  rw [h.bytes side] at hread ⊢
  exact (written_cases (h.valid (!side))).resolve_left hread

/-! ## One step -/

theorem Sound.advance (h : x.Sound connection) {count : Nat} {out : Bytes} {stage : Stage}
    (hvalid : x.Valid side (connection.sent side) stage)
    (hconsumed : x.consumed side stage =
      x.consumed side (connection.stage side) ++ (connection.incoming side).take count)
    (hwritten : x.written side (connection.sent side) stage =
      x.written side (connection.sent side) (connection.stage side) ++ out) :
    x.Sound (connection.advance side count out stage) := by
  constructor
  · intro who
    rcases Bool.eq_or_eq_not who side with rfl | rfl
    · simpa using hvalid
    · simpa using h.valid (!side)
  · intro who
    rcases Bool.eq_or_eq_not who side with rfl | rfl
    · have hparts : (connection.incoming who).take count ++
          ((connection.incoming who).drop count ++ connection.wire who) =
            connection.incoming who ++ connection.wire who := by
        rw [← List.append_assoc, List.take_append_drop]
      simp [hconsumed, hparts, h.bytes who]
    · have hother := h.bytes (!side)
      rw [Bool.not_not] at hother
      simp [hwritten, ← hother]

theorem Sound.arrive (h : x.Sound connection) (side : Bool) (count : Nat) :
    x.Sound (connection.arrive side count) := by
  refine ⟨h.valid, fun who => ?_⟩
  refine Eq.trans ?_ (h.bytes who)
  unfold Connection.arrive
  rcases Bool.eq_or_eq_not who side with rfl | rfl
  · simp [← List.append_assoc, List.append_assoc _ (List.take _ _)]
  · simp

/-- The first step of a side. -/
theorem Sound.begin (h : x.Sound connection) (hstart : connection.stage side = .start) :
    ∃ own, setup.begin connection side = connection.advance side 0 own (.awaitingLength own) ∧
      x.Sound (setup.begin connection side) := by
  have hsent : connection.sent side = [] := by
    have hvalid := h.valid side
    rwa [hstart] at hvalid
  have hbegin : setup.begin connection side =
      connection.advance side 0 (x.opening side) (.awaitingLength (x.opening side)) := by
    cases side with
    | false =>
        rw [show x.opening false = [] from rfl, Connection.advance_nothing]
        rfl
    | true =>
        rw [Connection.advance_write]
        simp [Setup.begin, x.prepared, opening]
  refine ⟨x.opening side, hbegin, ?_⟩
  rw [hbegin]
  refine h.advance ⟨rfl, hsent⟩ ?_ ?_
  · rw [hstart]
    rfl
  · rw [hstart]
    rfl

/-- The two bytes of a size. -/
theorem Sound.takeLength (h : x.Sound connection) {own : Bytes}
    (hstage : connection.stage side = .awaitingLength own)
    (hlength : ¬ (connection.incoming side).length < 2) :
    x.Sound ((connection.consume side 2).setStage side
      (.awaitingPacket own ((connection.incoming side).take 2))) := by
  have hvalid := h.valid side
  have hread := h.reads_packet side
  rw [hstage] at hvalid hread
  have hmore := hread (by
    intro hnil
    have hnone := (List.append_eq_nil_iff.mp (List.append_eq_nil_iff.mp hnil).2).1
    rw [hnone] at hlength
    exact hlength (by decide))
  have htake : (connection.incoming side).take 2 = (x.packet (!side)).take 2 := by
    calc (connection.incoming side).take 2
        = (connection.incoming side ++ connection.wire side).take 2 :=
          (List.take_append_of_le_length (by omega)).symm
      _ = (x.packet (!side) ++ x.frames (!side) (connection.sent (!side))).take 2 :=
          congrArg (List.take 2) hmore
      _ = (x.packet (!side)).take 2 := List.take_append_of_le_length (x.length_packet (!side))
  rw [← Connection.advance_consume]
  refine h.advance ⟨hvalid.1, htake, hvalid.2⟩ ?_ ?_
  · rw [hstage]
    rfl
  · rw [hstage]
    exact (List.append_nil _).symm

/-- The bytes behind the size are those of the packet. -/
theorem Sound.take_packet (h : x.Sound connection) {own lenBuf : Bytes}
    (hstage : connection.stage side = .awaitingPacket own lenBuf)
    (hlength : ¬ (connection.incoming side).length < fromBytes lenBuf) :
    lenBuf = (x.packet (!side)).take 2 ∧
      (connection.incoming side).take (fromBytes lenBuf) = (x.packet (!side)).drop 2 := by
  have hvalid := h.valid side
  have hread := h.reads_packet side
  rw [hstage] at hvalid hread
  obtain ⟨-, rfl, -⟩ := hvalid
  have hlong := x.length_packet (!side)
  have hmore := hread (by
    intro hnil
    have hnone := congrArg List.length (List.append_eq_nil_iff.mp hnil).1
    change ((x.packet (!side)).take 2).length = 0 at hnone
    rw [List.length_take] at hnone
    omega)
  refine ⟨rfl, ?_⟩
  generalize x.frames (!side) (connection.sent (!side)) = more at hmore
  have hrest : connection.incoming side ++ connection.wire side =
      (x.packet (!side)).drop 2 ++ more := by
    have hsplit : x.packet (!side) ++ more =
        (x.packet (!side)).take 2 ++ ((x.packet (!side)).drop 2 ++ more) := by
      rw [← List.append_assoc, List.take_append_drop]
    exact List.append_cancel_left (hmore.trans hsplit)
  calc (connection.incoming side).take (fromBytes ((x.packet (!side)).take 2))
      = (connection.incoming side ++ connection.wire side).take
          (fromBytes ((x.packet (!side)).take 2)) :=
        (List.take_append_of_le_length (Nat.le_of_not_lt hlength)).symm
    _ = ((x.packet (!side)).drop 2 ++ more).take ((x.packet (!side)).drop 2).length := by
        rw [hrest, x.announced]
    _ = (x.packet (!side)).drop 2 := List.take_left

omit [Aes] in
theorem finish_recipient {lenBuf encrypted fullAck : Bytes} {session : Established}
    (hanswer : answerAuth setup.recipient lenBuf encrypted = .ok (fullAck, session))
    (own : Bytes) : setup.finish connection false own lenBuf encrypted =
      (connection.write false fullAck).setStage false (.done session (.new session.secrets)) := by
  unfold Setup.finish
  rw [if_neg Bool.false_ne_true, hanswer]

/-- The last step of a side. -/
theorem Sound.finish (h : x.Sound connection) {own lenBuf : Bytes}
    (hstage : connection.stage side = .awaitingPacket own lenBuf)
    (hlength : ¬ (connection.incoming side).length < fromBytes lenBuf) :
    ∃ out, setup.finish (connection.consume side (fromBytes lenBuf)) side own lenBuf
        ((connection.incoming side).take (fromBytes lenBuf)) =
          connection.advance side (fromBytes lenBuf) out
            (.done (x.session side) (x.codec side)) ∧
      x.Sound (setup.finish (connection.consume side (fromBytes lenBuf)) side own lenBuf
        ((connection.incoming side).take (fromBytes lenBuf))) := by
  obtain ⟨hlenBuf, htake⟩ := h.take_packet hstage hlength
  have hvalid := h.valid side
  rw [hstage] at hvalid
  obtain ⟨hown, -, hsent⟩ := hvalid
  have hwhole : x.packet (!side) =
      lenBuf ++ (connection.incoming side).take (fromBytes lenBuf) := by
    rw [htake, hlenBuf, List.take_append_drop]
  cases side with
  | true =>
      have hfinish : setup.finish (connection.consume true (fromBytes lenBuf)) true own lenBuf
          ((connection.incoming true).take (fromBytes lenBuf)) =
            connection.advance true (fromBytes lenBuf) []
              (.done (x.session true) (x.codec true)) := by
        rw [Connection.advance_consume, htake, hlenBuf, hown]
        unfold Setup.finish
        rw [if_pos rfl, Bool.not_true, show x.opening true = x.packet true from rfl, x.received]
        rfl
      refine ⟨[], hfinish, ?_⟩
      rw [hfinish]
      refine h.advance ⟨rfl, ?_⟩ ?_ ?_
      · rw [hsent]
        rfl
      · rw [hstage]
        exact hwhole
      · rw [hstage, hsent, hown]
        rfl
  | false =>
      have hfinish : setup.finish (connection.consume false (fromBytes lenBuf)) false own lenBuf
          ((connection.incoming false).take (fromBytes lenBuf)) =
            connection.advance false (fromBytes lenBuf) (x.packet false)
              (.done (x.session false) (x.codec false)) := by
        rw [htake, hlenBuf]
        exact finish_recipient x.answered own
      refine ⟨x.packet false, hfinish, ?_⟩
      rw [hfinish]
      refine h.advance ⟨rfl, ?_⟩ ?_ ?_
      · rw [hsent]
        rfl
      · rw [hstage]
        exact hwhole
      · rw [hstage, hsent, hown]
        exact List.append_nil _

/-- A frame that a side sends. -/
theorem Sound.send (h : x.Sound connection) {session : Established} {codec : RlpxFrameCodec}
    (hstage : connection.stage side = .done session codec) (message : Message) :
    x.Sound { connection.advance side 0 (codec.writeFrame message).2
        (.done session (codec.writeFrame message).1) with
      sent := Function.update connection.sent side (connection.sent side ++ [message]) } := by
  have hvalid := h.valid side
  rw [hstage] at hvalid
  obtain ⟨rfl, rfl⟩ := hvalid
  constructor
  · intro who
    rcases Bool.eq_or_eq_not who side with rfl | rfl
    · simp [Valid, writeAll_concat]
    · simpa using h.valid (!side)
  · intro who
    rcases Bool.eq_or_eq_not who side with rfl | rfl
    · have hown := h.bytes who
      rw [hstage] at hown
      simpa [consumed] using hown
    · have hother := h.bytes (!side)
      rw [Bool.not_not, hstage] at hother
      simp only [written, frames] at hother
      simp [written, frames, writeAll_concat, ← List.append_assoc, ← hother]

theorem Sound.step (h : x.Sound connection) (event : Event) :
    x.Sound (setup.step connection event) := by
  cases event with
  | arrive side count => exact h.arrive side count
  | poll side =>
      unfold Setup.step
      dsimp only
      split
      next hstage => exact (h.begin hstage).choose_spec.2
      next hstage =>
        split
        next => exact h
        next hlength => exact h.takeLength hstage hlength
      next hstage =>
        split
        next => exact h
        next hlength => exact (h.finish hstage hlength).choose_spec.2
      next => exact h
      next => exact h
  | send side message =>
      unfold Setup.step
      dsimp only
      split
      next session codec hstage =>
        have hsent := h.send hstage message
        rwa [Connection.advance_write] at hsent
      next => exact h

theorem Sound.run (h : x.Sound connection) (events : List Event) :
    x.Sound (setup.run connection events) := by
  induction events generalizing connection with
  | nil => exact h
  | cons event rest ih => exact ih (h.step event)

theorem Sound.not_failed (h : x.Sound connection) (side : Bool) (failure : Failure) :
    connection.stage side ≠ .failed failure := by
  intro hstage
  have hvalid := h.valid side
  rwa [hstage] at hvalid

/-! ## Getting through -/

/-- What a side did left the other where it was. -/
structure Beside (side : Bool) (connection next : Connection) : Prop where
  stage : next.stage (!side) = connection.stage (!side)
  sent : next.sent = connection.sent

omit [Aes] [Keccak256] [Sha256Hash] [Aes128Ctr] [Secp256k1 SecretKey PublicKey] in
theorem Beside.trans {next last : Connection} (h : Beside side connection next)
    (h' : Beside side next last) : Beside side connection last :=
  ⟨h'.stage.trans h.stage, h'.sent.trans h.sent⟩

/-- A side is through after some events of its own. -/
def GetsThrough (setup : Setup SecretKey PublicKey) (side : Bool) (connection : Connection) :
    Prop :=
  ∃ events, (∃ session codec, (setup.run connection events).stage side = .done session codec) ∧
    Beside side connection (setup.run connection events)

theorem GetsThrough.of_run {events : List Event}
    (h : GetsThrough setup side (setup.run connection events))
    (hbeside : Beside side connection (setup.run connection events)) :
    GetsThrough setup side connection := by
  obtain ⟨more, hdone, hmore⟩ := h
  have happend : setup.run connection (events ++ more) =
      setup.run (setup.run connection events) more := List.foldl_append
  exact ⟨events ++ more, happend ▸ hdone, happend ▸ hbeside.trans hmore⟩

/-- All bytes on the way to a side arrive, and it goes on. -/
def drive (connection : Connection) (side : Bool) : List Event :=
  [.arrive side (connection.wire side).length, .poll side]

/-- The bytes on the way to a side have arrived. -/
def arrived (connection : Connection) (side : Bool) : Connection :=
  connection.arrive side (connection.wire side).length

theorem run_drive : setup.run connection (drive connection side) =
    setup.step (arrived connection side) (.poll side) :=
  rfl

omit [Aes] [Keccak256] [Sha256Hash] [Aes128Ctr] [Secp256k1 SecretKey PublicKey] in
theorem incoming_arrived : (arrived connection side).incoming side =
    connection.incoming side ++ connection.wire side := by
  simp [arrived, Connection.arrive]

theorem Sound.getsThrough_of_packet (h : x.Sound connection) {own lenBuf : Bytes}
    (hstage : connection.stage side = .awaitingPacket own lenBuf) :
    GetsThrough setup side connection := by
  have harrived : x.Sound (arrived connection side) := h.arrive side _
  have hlength : ¬ ((arrived connection side).incoming side).length < fromBytes lenBuf := by
    have hvalid := h.valid side
    have hread := h.reads_packet side
    rw [hstage] at hvalid hread
    obtain ⟨-, rfl, -⟩ := hvalid
    have hlong := x.length_packet (!side)
    have htwo : ((x.packet (!side)).take 2).length = 2 := by
      rw [List.length_take]
      omega
    have hmore := hread (by
      intro hnil
      have hnone := congrArg List.length (List.append_eq_nil_iff.mp hnil).1
      change ((x.packet (!side)).take 2).length = 0 at hnone
      omega)
    have hsizes := congrArg List.length hmore
    change ((x.packet (!side)).take 2 ++ _).length = _ at hsizes
    rw [incoming_arrived, x.announced]
    simp only [List.length_append, htwo, List.length_drop] at hsizes ⊢
    omega
  obtain ⟨out, hfinish, -⟩ := harrived.finish hstage hlength
  have hpoll : setup.run connection (drive connection side) =
      (arrived connection side).advance side (fromBytes lenBuf) out
        (.done (x.session side) (x.codec side)) := by
    rw [run_drive]
    unfold Setup.step
    dsimp only
    rw [show (arrived connection side).stage side = .awaitingPacket own lenBuf from hstage]
    dsimp only
    rw [if_neg hlength, hfinish]
  refine ⟨drive connection side, ?_, ?_⟩
  · rw [hpoll]
    exact ⟨_, _, Connection.stage_advance _ _ _ _ _⟩
  · rw [hpoll]
    exact ⟨Connection.stage_advance_other _ _ _ _ _, rfl⟩

theorem Sound.getsThrough_of_length (h : x.Sound connection) {own : Bytes}
    (hstage : connection.stage side = .awaitingLength own)
    (hwritten :
      x.written (!side) (connection.sent (!side)) (connection.stage (!side)) ≠ []) :
    GetsThrough setup side connection := by
  have hmore := (written_cases (h.valid (!side))).resolve_left hwritten
  have hbytes := h.bytes side
  rw [hmore, hstage] at hbytes
  change connection.incoming side ++ connection.wire side = _ at hbytes
  have hlength : ¬ ((arrived connection side).incoming side).length < 2 := by
    rw [incoming_arrived, hbytes, List.length_append]
    have hlong := x.length_packet (!side)
    omega
  have hpoll : setup.run connection (drive connection side) =
      ((arrived connection side).consume side 2).setStage side
        (.awaitingPacket own (((arrived connection side).incoming side).take 2)) := by
    rw [run_drive]
    unfold Setup.step
    dsimp only
    rw [show (arrived connection side).stage side = .awaitingLength own from hstage]
    dsimp only
    rw [if_neg hlength]
  have hsound := h.run (drive connection side)
  rw [← Connection.advance_consume] at hpoll
  have hnext : (setup.run connection (drive connection side)).stage side =
      .awaitingPacket own (((arrived connection side).incoming side).take 2) := by
    rw [hpoll]
    exact Connection.stage_advance _ _ _ _ _
  refine GetsThrough.of_run (hsound.getsThrough_of_packet hnext) ?_
  rw [hpoll]
  exact ⟨Connection.stage_advance_other _ _ _ _ _, rfl⟩

/-- A side gets through once the other has written its packet. -/
theorem Sound.getsThrough (h : x.Sound connection)
    (hwritten :
      x.written (!side) (connection.sent (!side)) (connection.stage (!side)) ≠ []) :
    GetsThrough setup side connection := by
  cases hstage : connection.stage side with
  | start =>
      obtain ⟨own, hbegin, hsound⟩ := h.begin hstage
      have hpoll : setup.run connection [.poll side] = setup.begin connection side := by
        unfold Setup.run Setup.step
        rw [List.foldl_cons, List.foldl_nil]
        dsimp only
        rw [hstage]
      rw [hbegin] at hpoll hsound
      have hthrough : GetsThrough setup side (setup.run connection [.poll side]) := by
        rw [hpoll]
        refine hsound.getsThrough_of_length (Connection.stage_advance _ _ _ _ _) ?_
        rwa [Connection.stage_advance_other, Connection.sent_advance]
      refine hthrough.of_run ?_
      rw [hpoll]
      exact ⟨Connection.stage_advance_other _ _ _ _ _, rfl⟩
  | awaitingLength own => exact h.getsThrough_of_length hstage hwritten
  | awaitingPacket own lenBuf => exact h.getsThrough_of_packet hstage
  | done session codec => exact ⟨[], ⟨session, codec, hstage⟩, rfl, rfl⟩
  | failed failure => exact absurd hstage (h.not_failed side failure)

/-- Once through, a side has written its packet. -/
theorem written_ne_nil {stage : Stage} {session : Established} {codec : RlpxFrameCodec}
    (sent : List Message) (hdone : stage = .done session codec) :
    x.written side sent stage ≠ [] := by
  subst hdone
  intro hnil
  have hlong := x.length_packet side
  rw [(List.append_eq_nil_iff.mp hnil).1] at hlong
  exact absurd hlong (by decide)

/-- The initiator writes first. -/
theorem Sound.exists_opening (h : x.Sound connection) :
    ∃ events, (setup.run connection events).sent = connection.sent ∧
      x.written true ((setup.run connection events).sent true)
        ((setup.run connection events).stage true) ≠ [] := by
  have hne : x.packet true ≠ [] := by
    intro hnil
    have hlong := x.length_packet true
    rw [hnil] at hlong
    exact absurd hlong (by decide)
  cases hstage : connection.stage true with
  | start =>
      obtain ⟨own, hbegin, hsound⟩ := h.begin hstage
      have hpoll : setup.run connection [.poll true] = setup.begin connection true := by
        unfold Setup.run Setup.step
        rw [List.foldl_cons, List.foldl_nil]
        dsimp only
        rw [hstage]
      refine ⟨[.poll true], ?_⟩
      rw [hpoll]
      rw [hbegin] at hsound ⊢
      refine ⟨rfl, ?_⟩
      have hvalid := hsound.valid true
      rw [Connection.stage_advance] at hvalid ⊢
      obtain ⟨rfl, -⟩ := hvalid
      exact hne
  | awaitingLength own =>
      have hvalid := h.valid true
      rw [hstage] at hvalid
      obtain ⟨rfl, -⟩ := hvalid
      refine ⟨[], rfl, ?_⟩
      change x.written true (connection.sent true) (connection.stage true) ≠ []
      rw [hstage]
      exact hne
  | awaitingPacket own lenBuf =>
      have hvalid := h.valid true
      rw [hstage] at hvalid
      obtain ⟨rfl, -⟩ := hvalid
      refine ⟨[], rfl, ?_⟩
      change x.written true (connection.sent true) (connection.stage true) ≠ []
      rw [hstage]
      exact hne
  | done session codec => exact ⟨[], rfl, written_ne_nil _ hstage⟩
  | failed failure => exact absurd hstage (h.not_failed true failure)

/-- From wherever the two sides are, both get through without a frame. -/
theorem Sound.exists_done (h : x.Sound connection) :
    ∃ events, (setup.run connection events).sent = connection.sent ∧
      ∀ side, ∃ session codec,
        (setup.run connection events).stage side = .done session codec := by
  obtain ⟨first, hsent, hopening⟩ := h.exists_opening
  have hfirst := h.run first
  have hanswering : GetsThrough setup false (setup.run connection first) :=
    hfirst.getsThrough hopening
  obtain ⟨second, ⟨session, codec, hrecipient⟩, hbeside⟩ := hanswering
  have hsecond := hfirst.run second
  have hfinishing : GetsThrough setup true (setup.run (setup.run connection first) second) :=
    hsecond.getsThrough (written_ne_nil _ hrecipient)
  obtain ⟨third, hinitiator, hbeside'⟩ := hfinishing
  refine ⟨first ++ (second ++ third), ?_⟩
  have happend : setup.run connection (first ++ (second ++ third)) =
      setup.run (setup.run (setup.run connection first) second) third := by
    unfold Setup.run
    rw [List.foldl_append, List.foldl_append]
  rw [happend]
  refine ⟨hbeside'.sent.trans (hbeside.sent.trans hsent), fun side => ?_⟩
  cases side with
  | true => exact hinitiator
  | false => exact ⟨session, codec, hbeside'.stage.trans hrecipient⟩

/-! ## Frames behind the packets -/

/-- A side that is through has the frames of the other before it. -/
theorem Sound.unread (h : x.Sound connection) {session : Established} {codec : RlpxFrameCodec}
    (hdone : connection.stage side = .done session codec) :
    connection.incoming side ++ connection.wire side =
      x.frames (!side) (connection.sent (!side)) := by
  have hread := h.reads_packet side
  rw [hdone] at hread
  refine List.append_cancel_left (hread fun hnil => ?_)
  have hlong := x.length_packet (!side)
  rw [show x.packet (!side) = [] from (List.append_eq_nil_iff.mp hnil).1] at hlong
  exact absurd hlong (by decide)

end Exchange

end WasixEth.KeyExchange
