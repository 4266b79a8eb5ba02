import WasixEth.Lib.Snappy
import WasixEth.P2p.ForkRules
import WasixEth.P2p.Greeting
import WasixEth.P2p.SessionReads

/-! # Early messages

A peer may send messages of the session before its hello or before its status. Whatever it
sends, a node that is through with the greeting has them all in its buffer, in the order in
which they were sent and in front of what it has not read; only the status is gone. Every
ping that was read has been answered.
-/

namespace WasixEth.P2p.Greeting

open KeyExchange (Failure orError orDecodeError)
open Machine Wire
open Rlp hiding Failure

/-! ## Kinds of messages -/

/-- A message of a capability. -/
def keeps (message : Message) : Bool := 0x10 ≤ message.1.toNat

def isPing (message : Message) : Bool := message.1 == 0x02

def isPong (message : Message) : Bool := message.1 == 0x03

/-- A message that a node takes note of, answers or passes over while it greets. -/
def Ordinary (message : Message) : Prop :=
  keeps message = true ∨ isPing message = true ∨ isPong message = true

theorem isPing_eq_false {message : Message} (h : keeps message = true) :
    isPing message = false := by
  unfold keeps at h
  unfold isPing
  apply beq_eq_false_iff_ne.mpr
  intro heq
  rw [heq] at h
  exact absurd h (by decide)

/-! ## Where the eth messages start -/

theorem names_subset (remoteCaps : List Capability) {name : String}
    (h : name ∈ (SharedCapabilities.compareAll localCapabilities remoteCaps).names) :
    name = "eth" ∨ name = "snap" := by
  have hpositive := SharedCapabilities.mem_names_compareAll.mp h
  have hlocal : 0 < highest name localCapabilities :=
    Nat.lt_of_lt_of_le hpositive (Nat.min_le_left _ _)
  by_contra hneither
  obtain ⟨heth, hsnap⟩ := not_or.mp hneither
  have hzero : highest name localCapabilities = 0 := by
    apply highest_eq_zero
    simp [localCapabilities, heth, hsnap]
  omega

/-- No name comes before that of eth. -/
theorem offset_ethCap {mode : Mode} {remoteCaps : List Capability}
    {negotiated : List NegotiatedCapability}
    (h : Passes (negotiate mode localCapabilities remoteCaps) negotiated)
    {ethCap : NegotiatedCapability}
    (hfind : negotiated.find? (fun c => c.name == "eth") = some ethCap) :
    ethCap.offset = 0x10 := by
  obtain ⟨-, rfl⟩ := passes_negotiate_iff.mp h
  have hordered := (SharedCapabilities.Consistent.compareAll localCapabilities remoteCaps).ordered
  have hsubset := fun name => @names_subset remoteCaps name
  generalize SharedCapabilities.compareAll localCapabilities remoteCaps = shared at *
  cases hnames : shared.names with
  | nil =>
      rw [hnames] at hfind
      cases hfind
  | cons name names =>
      rw [hnames] at hfind hordered hsubset
      have hfirst : name = "eth" := by
        by_contra hne
        have hsnap : name = "snap" := (hsubset name List.mem_cons_self).resolve_left hne
        have hmem := List.mem_of_find?_eq_some hfind
        have hname : ethCap.name = "eth" := by simpa using List.find?_some hfind
        have hlayout : (shared.layout 0x10 (name :: names)).map (fun capability =>
            capability.name) = name :: names := SharedCapabilities.map_name_layout _ _
        have heth : "eth" ∈ name :: names := by
          rw [← hlayout, ← hname]
          exact List.mem_map_of_mem hmem
        rcases List.mem_cons.mp heth with heq | htail
        · exact hne heq.symm
        · have hlt := List.rel_of_pairwise_cons hordered htail
          rw [hsnap] at hlt
          exact absurd hlt (by decide)
      subst hfirst
      rw [SharedCapabilities.layout, List.find?_cons_of_pos (by simp)] at hfind
      cases hfind
      rfl

/-! ## What a turn does with a message -/

namespace Greeter

variable [SnappyEncoder]

/-- A message that does not end a loop is noted, answered or passed over, or it ends the
greeting. -/
theorem handleOther_spec (greeter : Greeter) (during expected : String)
    (await : List Message → Stage) (temp : List Message) (message : Message)
    (hstage : greeter.stage = await temp) :
    (∃ failure, (greeter.handleOther during expected await temp message).stage =
      .failed failure) ∨
    ∃ pongs, Ordinary message ∧ pongs.countP isPong = [message].countP isPing ∧
      greeter.handleOther during expected await temp message =
        { greeter with
          stage := await (temp ++ [message].filter keeps)
          sent := greeter.sent ++ pongs } := by
  obtain ⟨id, payload⟩ := message
  unfold handleOther
  dsimp only
  split
  next =>
    left
    split
    next failure _ => exact ⟨failure, rfl⟩
    next => exact ⟨_, rfl⟩
  next =>
    split
    next hping =>
      subst hping
      unfold sendThen
      split
      next failure _ => exact .inl ⟨failure, rfl⟩
      next frame hframe =>
        right
        have hid : frame.1 = 0x03 := by
          unfold PeerStream.sendP2p at hframe
          obtain ⟨finalPayload, -, hframe⟩ := Codec.exists_of_bind_ok hframe
          cases hframe
          rfl
        refine ⟨[frame], .inr (.inl rfl), ?_, ?_⟩
        · simp [isPong, isPing, hid]
        · simp [keeps]
    next =>
      split
      next hpong =>
        subst hpong
        right
        refine ⟨[], .inr (.inr rfl), rfl, ?_⟩
        simp [keeps, ← hstage]
      next =>
        split
        next hkeeps =>
          right
          have hkept : keeps (id, payload) = true := decide_eq_true hkeeps
          refine ⟨[], .inl hkept, ?_, ?_⟩
          · simp [isPing_eq_false hkept]
          · simp [hkept]
        next => exact .inl ⟨_, rfl⟩

/-- A frame of the eth protocol stands at the offset. -/
theorem id_of_sendEth {stream : PeerStream} {payload : Bytes} {frame : Message}
    {ethCap : NegotiatedCapability} (hcap : stream.ethCap = some ethCap)
    (hframe : stream.sendEth payload 0x00 = .ok frame) : frame.1 = ethCap.offset := by
  unfold PeerStream.sendEth at hframe
  rw [hcap] at hframe
  obtain ⟨finalPayload, -, hframe⟩ := Codec.exists_of_bind_ok hframe
  cases hframe
  exact UInt8.zero_add _

theorem beginStatus_spec (greeter : Greeter) (localStatus : StatusMessage) :
    (∃ failure, (greeter.beginStatus localStatus).stage = .failed failure) ∨
    ∃ ethCap frame, greeter.stream.ethCap = some ethCap ∧ frame.1 = ethCap.offset ∧
      greeter.beginStatus localStatus =
        { greeter with
          stage := .awaitingStatus ethCap.offset ethCap.version []
          sent := greeter.sent ++ [frame] } := by
  unfold beginStatus
  split
  next => exact .inl ⟨_, rfl⟩
  next ethCap hcap =>
    unfold sendThen
    split
    next failure _ => exact .inl ⟨failure, rfl⟩
    next frame hframe => exact .inr ⟨ethCap, frame, hcap, id_of_sendEth hcap hframe, rfl⟩

theorem receiveHello_spec (mode : Mode) (node : LocalNode) (views : Views) (greeter : Greeter)
    (temp : List Message) (payload : Bytes) :
    (∃ failure, (receiveHello mode node views greeter temp payload).stage = .failed failure) ∨
    ∃ remoteHello rest negotiated ethCap frame,
      Hello.codec.decode payload = .ok (remoteHello, rest) ∧
      Passes (negotiate mode localCapabilities remoteHello.capabilities) negotiated ∧
      (greeter.stream.sharedCapabilities ++ negotiated).find? (fun c => c.name == "eth") =
        some ethCap ∧
      frame.1 = ethCap.offset ∧
      receiveHello mode node views greeter temp payload =
        { stream := {
            remoteId := some remoteHello.id
            remoteClientVersion := some remoteHello.clientVersion
            sharedCapabilities := greeter.stream.sharedCapabilities ++ negotiated
            msgBuffer := temp ++ greeter.stream.msgBuffer }
          stage := .awaitingStatus ethCap.offset ethCap.version []
          sent := greeter.sent ++ [frame] } := by
  unfold receiveHello
  split
  next failure _ => exact .inl ⟨failure, rfl⟩
  next remoteHello rest hread =>
    have hhello : Hello.codec.decode payload = .ok (remoteHello, rest) := by
      cases hdecode : Hello.codec.decode payload with
      | error e =>
          rw [hdecode] at hread
          cases hread
      | ok read =>
          rw [hdecode] at hread
          cases hread
          rfl
    dsimp only
    split
    next => exact .inl ⟨_, rfl⟩
    next => exact .inl ⟨_, rfl⟩
    next negotiated hnegotiated =>
      rcases beginStatus_spec _ _ with hfailed | ⟨ethCap, frame, hcap, hid, hbegin⟩
      · exact .inl hfailed
      · right
        exact ⟨remoteHello, rest, negotiated, ethCap, frame, hhello, hnegotiated, hcap, hid,
          hbegin⟩

omit [SnappyEncoder] in
theorem receiveStatus_spec (node : LocalNode) (view : ChainView) (greeter : Greeter)
    (version : Nat) (temp : List Message) (payload : Bytes) :
    (∃ failure, (receiveStatus node view greeter version temp payload).stage =
      .failed failure) ∨
    ∃ remoteStatus, readStatus version payload = .ok remoteStatus ∧
      judgeStatus node view remoteStatus = .ok () ∧
      receiveStatus node view greeter version temp payload =
        { greeter.restore temp with stage := .done remoteStatus } := by
  unfold receiveStatus
  dsimp only
  split
  next failure _ => exact .inl ⟨failure, rfl⟩
  next remoteStatus hread =>
    split
    next failure _ => exact .inl ⟨failure, rfl⟩
    next hjudged => exact .inr ⟨remoteStatus, hread, hjudged, rfl⟩

end Greeter

def Stage.remoteStatus : Stage → Option StatusMessage
  | .done status => some status
  | .awaitingHello _ | .awaitingStatus .. | .failed _ => none

theorem Stage.eq_done {stage : Stage} {status : StatusMessage}
    (h : stage.remoteStatus = some status) : stage = .done status := by
  cases stage with
  | done other => exact congrArg Stage.done (Option.some.inj h)
  | awaitingHello temp => cases h
  | awaitingStatus offset version temp => cases h
  | failed failure => cases h

/-! ## What a node has heard -/

section Heard

variable [Snappy]

/-- The messages that frames open to. -/
def Opens (stream : PeerStream) : List Message → List Message → Prop :=
  List.Forall₂ fun frame message => stream.opened frame = .ok message

/-- Nothing is compressed before capabilities are shared. -/
theorem opened_of_nil {stream : PeerStream} (h : stream.sharedCapabilities = [])
    (frame : Message) : stream.opened frame = .ok frame := by
  unfold PeerStream.opened RlpxStream.decompressed RlpxStream.snappyEnabled PeerStream.rlpx
  simp [h]

/-- The frames up to the hello, the hello, and the frames behind it with the messages that
they open to. -/
structure Hearing where
  early : List Message
  payload : Bytes
  hello : Hello
  rest : Bytes
  later : List Message
  messages : List Message

/-- Everything but the hello. -/
def Hearing.heard (x : Hearing) : List Message := x.early ++ x.messages

/-- What a node has heard, of all the frames that come to it. -/
structure Heard (mode : Mode) (frames unread : List Message) (greeter : Greeter) (x : Hearing) :
    Prop where
  frames_eq : frames = x.early ++ (0x00, x.payload) :: (x.later ++ unread)
  hello_eq : Hello.codec.decode x.payload = .ok (x.hello, x.rest)
  negotiated : Passes (negotiate mode localCapabilities x.hello.capabilities)
    greeter.stream.sharedCapabilities
  remoteId_eq : greeter.stream.remoteId = some x.hello.id
  opens : Opens greeter.stream x.later x.messages
  ordinary : ∀ message ∈ x.heard, Ordinary message
  pongs : greeter.sent.countP isPong = x.heard.countP isPing

/-- The first message with the first id of eth was the status; the others of a capability are
in the buffer. -/
def Delivered (greeter : Greeter) (x : Hearing) (status : StatusMessage) : Prop :=
  ∃ ethCap before payload after,
    greeter.stream.ethCap = some ethCap ∧
    x.heard.filter keeps = before ++ (0x10, payload) :: after ∧
    (∀ message ∈ before, message.1 ≠ 0x10) ∧
    greeter.stream.msgBuffer = before ++ after ∧
    readStatus ethCap.version payload = .ok status

/-- What is true of a node that has read the frames up to those that are unread. -/
def Sound (mode : Mode) (frames unread : List Message) (greeter : Greeter) : Prop :=
  match greeter.stage with
  | .awaitingHello temp =>
      greeter.stream.sharedCapabilities = [] ∧ greeter.stream.msgBuffer = [] ∧
        ∃ early, frames = early ++ unread ∧ (∀ message ∈ early, Ordinary message) ∧
          temp = early.filter keeps ∧ greeter.sent.countP isPong = early.countP isPing
  | .awaitingStatus offset version temp =>
      ∃ x, Heard mode frames unread greeter x ∧ offset = 0x10 ∧
        (∃ ethCap, greeter.stream.ethCap = some ethCap ∧ ethCap.version = version) ∧
        temp ++ greeter.stream.msgBuffer = x.heard.filter keeps ∧
        ∀ message ∈ temp, message.1 ≠ 0x10
  | .done status => ∃ x, Heard mode frames unread greeter x ∧ Delivered greeter x status
  | .failed _ => True

variable {mode : Mode} {frames unread : List Message} {greeter : Greeter}

theorem sound_of_failed (frames unread : List Message)
    (h : ∃ failure, greeter.stage = .failed failure) : Sound mode frames unread greeter := by
  obtain ⟨failure, hstage⟩ := h
  unfold Sound
  rw [hstage]
  trivial

/-- Another frame is opened and noted. -/
theorem Heard.note {x : Hearing} {frame message : Message}
    (h : Heard mode frames (frame :: unread) greeter x)
    (hopened : greeter.stream.opened frame = .ok message) (hordinary : Ordinary message)
    {stage : Stage} {pongs : List Message}
    (hpongs : pongs.countP isPong = [message].countP isPing) :
    Heard mode frames unread { greeter with stage, sent := greeter.sent ++ pongs }
      { x with later := x.later ++ [frame], messages := x.messages ++ [message] } where
  frames_eq := by
    rw [h.frames_eq]
    simp
  hello_eq := h.hello_eq
  negotiated := h.negotiated
  remoteId_eq := h.remoteId_eq
  opens := List.rel_append h.opens (.cons hopened .nil)
  ordinary := by
    intro other hmem
    unfold Hearing.heard at hmem
    rw [← List.append_assoc, List.mem_append, List.mem_singleton] at hmem
    rcases hmem with hold | rfl
    · exact h.ordinary other hold
    · exact hordinary
  pongs := by
    unfold Hearing.heard
    rw [List.countP_append, hpongs, h.pongs, ← List.append_assoc, List.countP_append]
    rfl

/-- A turn that reads no frame, and answers nothing. -/
theorem Heard.congr {x : Hearing} (h : Heard mode frames unread greeter x)
    (msgBuffer : List Message) (stage : Stage) {pongs : List Message}
    (hpongs : pongs.countP isPong = 0) :
    Heard mode frames unread
      { stream := { greeter.stream with msgBuffer }, stage, sent := greeter.sent ++ pongs } x where
  frames_eq := h.frames_eq
  hello_eq := h.hello_eq
  negotiated := h.negotiated
  remoteId_eq := h.remoteId_eq
  opens := h.opens
  ordinary := h.ordinary
  pongs := by
    rw [List.countP_append, hpongs]
    exact h.pongs

omit [Snappy] in
theorem heard_snoc (x : Hearing) (frame message : Message) :
    Hearing.heard { x with
      later := x.later ++ [frame]
      messages := x.messages ++ [message] } = x.heard ++ [message] :=
  (List.append_assoc _ _ _).symm

section Turns

variable [SnappyEncoder] {node : LocalNode} {views : Views}

/-- A message before the hello, or the hello. -/
theorem Sound.hello {temp : List Message} {message : Message}
    (h : Sound mode frames (message :: unread) greeter)
    (hstage : greeter.stage = .awaitingHello temp) :
    Sound mode frames unread (greeter.onMessage mode node views message) := by
  unfold Sound at h
  rw [hstage] at h
  obtain ⟨hcapabilities, hbuffer, early, rfl, hordinary, rfl, hpongs⟩ := h
  unfold Greeter.onMessage
  rw [hstage]
  dsimp only
  split
  next hzero =>
    rcases Greeter.receiveHello_spec mode node views greeter (early.filter keeps) message.2 with
      hfailed | ⟨remoteHello, rest, negotiated, ethCap, frame, hread, hpasses, hcap, hid, hnext⟩
    · exact sound_of_failed _ _ hfailed
    · rw [hcapabilities, List.nil_append] at hcap hnext
      have hoffset := offset_ethCap hpasses hcap
      rw [hnext]
      refine ⟨⟨early, message.2, remoteHello, rest, [], []⟩, ?_, hoffset, ⟨ethCap, hcap, rfl⟩,
        ?_, ?_⟩
      · constructor
        · rw [← hzero]
          rfl
        · exact hread
        · exact hpasses
        · rfl
        · exact .nil
        · simpa [Hearing.heard] using hordinary
        · have hframe : isPong frame = false := by
            unfold isPong
            rw [hid, hoffset]
            rfl
          simp [Hearing.heard, hpongs, hframe]
      · simp [Hearing.heard, hbuffer]
      · intro other hmem
        cases hmem
  next hother =>
    rcases Greeter.handleOther_spec greeter "handshake" "Hello (0x00)" .awaitingHello
        (early.filter keeps) message hstage with hfailed | ⟨pongs, hkind, hcount, hnext⟩
    · exact sound_of_failed _ _ hfailed
    · rw [hnext]
      refine ⟨hcapabilities, hbuffer, early ++ [message], ?_, ?_, ?_, ?_⟩
      · simp
      · intro other hmem
        rcases List.mem_append.mp hmem with hold | hnew
        · exact hordinary other hold
        · rw [List.mem_singleton.mp hnew]
          exact hkind
      · rw [List.filter_append]
      · rw [List.countP_append, List.countP_append, hpongs, hcount]

/-- A message before the status, or the status, from the buffer or from a frame. -/
theorem Heard.status {x : Hearing} {version : Nat} {temp : List Message} {message : Message}
    {ethCap : NegotiatedCapability} (hstage : greeter.stage = .awaitingStatus 0x10 version temp)
    (hcap : greeter.stream.ethCap = some ethCap) (hversion : ethCap.version = version)
    (hnot : ∀ other ∈ temp, other.1 ≠ 0x10)
    (hheard : ∀ stage pongs, Ordinary message →
      pongs.countP isPong = [message].countP isPing →
        Heard mode frames unread { greeter with stage, sent := greeter.sent ++ pongs } x)
    (hbuffer : temp ++ [message].filter keeps ++ greeter.stream.msgBuffer =
      x.heard.filter keeps) :
    Sound mode frames unread (greeter.onMessage mode node views message) := by
  unfold Greeter.onMessage
  rw [hstage]
  dsimp only
  split
  next heth =>
    obtain ⟨id, payload⟩ := message
    obtain rfl : id = 0x10 := heth
    rcases Greeter.receiveStatus_spec node (views 0) greeter version temp payload with
      hfailed | ⟨remoteStatus, hread, -, hnext⟩
    · exact sound_of_failed _ _ hfailed
    · rw [hnext]
      have hnow := hheard (.done remoteStatus) [] (.inl rfl) rfl
      have hnone : ([] : List Message).countP isPong = 0 := rfl
      have hthen := hnow.congr (temp ++ greeter.stream.msgBuffer) (.done remoteStatus) hnone
      rw [List.append_nil, List.append_nil] at hthen
      refine ⟨x, hthen, ethCap, temp, payload, greeter.stream.msgBuffer, hcap, ?_, hnot, rfl, ?_⟩
      · rw [← hbuffer]
        simp [keeps]
      · rw [hversion]
        exact hread
  next hother =>
    rcases Greeter.handleOther_spec greeter "eth handshake" s!"Eth Status ({(0x10 : UInt8)})"
        (.awaitingStatus 0x10 version) temp message hstage with
      hfailed | ⟨pongs, hkind, hcount, hnext⟩
    · exact sound_of_failed _ _ hfailed
    · rw [hnext]
      refine ⟨x, hheard _ pongs hkind hcount, rfl, ⟨ethCap, hcap, hversion⟩, hbuffer, ?_⟩
      intro other hmem
      rcases List.mem_append.mp hmem with hold | hnew
      · exact hnot other hold
      · rw [List.mem_singleton.mp (List.mem_of_mem_filter hnew)]
        exact hother

theorem Sound.poll (h : Sound mode frames unread greeter) :
    Sound mode frames (greeter.poll mode node views unread).2
      (greeter.poll mode node views unread).1 := by
  cases hstage : greeter.stage with
  | done status =>
      unfold Greeter.poll
      rw [hstage]
      exact h
  | failed failure =>
      unfold Greeter.poll
      rw [hstage]
      exact h
  | awaitingHello temp =>
      unfold Sound at h
      rw [hstage] at h
      cases unread with
      | nil =>
          unfold Greeter.poll
          rw [hstage, h.2.1]
          dsimp only
          unfold Sound
          rw [hstage]
          exact h
      | cons frame unread =>
          unfold Greeter.poll
          rw [hstage, h.2.1]
          dsimp only
          rw [opened_of_nil h.1]
          apply Sound.hello _ hstage
          unfold Sound
          rw [hstage]
          exact h
  | awaitingStatus offset version temp =>
      unfold Sound at h
      rw [hstage] at h
      obtain ⟨x, hheard, rfl, ⟨ethCap, hcap, hversion⟩, hbuffer, hnot⟩ := h
      unfold Greeter.poll
      rw [hstage]
      cases hmessages : greeter.stream.msgBuffer with
      | cons message rest =>
          rw [hmessages] at hbuffer
          have hkept : keeps message = true := by
            have hmem : message ∈ x.heard.filter keeps := by
              rw [← hbuffer]
              simp
            exact (List.mem_filter.mp hmem).2
          dsimp only
          refine Heard.status (x := x) rfl hcap hversion hnot ?_ ?_
          · intro stage pongs _ hcount
            apply hheard.congr
            rw [hcount]
            simp [isPing_eq_false hkept]
          · simpa [hkept] using hbuffer
      | nil =>
          rw [hmessages, List.append_nil] at hbuffer
          cases unread with
          | nil =>
              unfold Sound
              dsimp only
              rw [hstage]
              have hwhole : temp ++ greeter.stream.msgBuffer = x.heard.filter keeps := by
                rw [hmessages, List.append_nil, hbuffer]
              exact ⟨x, hheard, rfl, ⟨ethCap, hcap, hversion⟩, hwhole, hnot⟩
          | cons frame unread =>
              dsimp only
              split
              next e _ => exact sound_of_failed _ _ ⟨_, rfl⟩
              next message hopened =>
                refine Heard.status hstage hcap hversion hnot
                  (fun stage pongs hkind hcount => hheard.note hopened hkind hcount) ?_
                rw [heard_snoc, List.filter_append, ← hbuffer, hmessages, List.append_nil]

theorem Sound.run (h : Sound mode frames unread greeter) (node : LocalNode)
    (turns : List Views) :
    Sound mode frames (Greeter.run mode node turns greeter unread).2
      (Greeter.run mode node turns greeter unread).1 := by
  induction turns generalizing greeter unread with
  | nil => exact h
  | cons views turns ih => exact ih h.poll

omit [SnappyEncoder] in
theorem sound_begin (mode : Mode) (node : LocalNode) (remoteId : Option (FixedBytes 64))
    (frames : List Message) : Sound mode frames frames (Greeter.begin node remoteId) :=
  ⟨rfl, rfl, [], rfl, by simp, rfl, rfl⟩

/-- Whatever frames a peer sends: once a node is through with the greeting, they were some
early messages, a hello, some later messages and what is unread. Of the messages of
capabilities the first with the id of a status was the status, and the buffer has the others
in their order. All other messages were pings and pongs, and as many pongs were sent as
pings were read. -/
theorem keeps_early_messages (mode : Mode) (node : LocalNode) (remoteId : Option (FixedBytes 64))
    (turns : List Views) (frames : List Message) {status : StatusMessage}
    (hdone : (Greeter.run mode node turns (.begin node remoteId) frames).1.stage =
      .done status) :
    ∃ x, Heard mode frames (Greeter.run mode node turns (.begin node remoteId) frames).2
        (Greeter.run mode node turns (.begin node remoteId) frames).1 x ∧
      Delivered (Greeter.run mode node turns (.begin node remoteId) frames).1 x status := by
  have hsound := (sound_begin mode node remoteId frames).run node turns
  unfold Sound at hsound
  rw [hdone] at hsound
  exact hsound

end Turns

end Heard

/-! ## A peer that is ahead -/

section Sample

/-- Snappy that stores. -/
@[reducible] def storedSnappy : Snappy where
  decompressLen payload := (SnappyFormat.decompressLen payload).mapError toString
  decompressVec payload := (SnappyFormat.decompressVec payload).mapError toString

@[reducible] def storingEncoder : SnappyEncoder where
  compressVec payload := .ok (SnappyFormat.store payload)

attribute [local instance] storedSnappy storingEncoder

def keyOf (n : Nat) : FixedBytes 64 := ⟨beBytes 64 n, length_beBytes 64 n⟩

/-- A node whose chain has come as far as its genesis block. -/
def londonNode (key : FixedBytes 64) : LocalNode where
  networkId := 1
  genesisHash := ForkId.londonGenesis
  chainConfig := ForkId.londonAt 100
  p2pPort := 30303
  publicKeyB512 := key

def atGenesis : ChainView where
  headHash := ForkId.londonGenesis
  headNumber := 0
  headTd := some 1
  headTimestamp := some 0
  genesisTimestamp := some 0
  earliest := some 0

def aheadStatus : StatusEth69 where
  version := .eth72
  chain := 1
  genesis := ForkId.londonGenesis
  forkid := (londonNode (keyOf 1)).getForkId atGenesis
  earliest := 0
  latest := 0
  blockhash := ForkId.londonGenesis

/-- An announcement and a ping before the hello, another announcement before the status, and
a last one behind it. -/
def aheadFrames : List Message :=
  [(0x15, [0xc0]), (0x02, [0xc0]),
    (0x00, Hello.codec.encode (londonNode (keyOf 1)).createLocalHello),
    (0x16, SnappyFormat.store [0xc0]),
    (0x10, SnappyFormat.store (StatusEth69.codec.encode aheadStatus)),
    (0x17, SnappyFormat.store [0xc0])]

/-- The node that they come to, after its sixth turn. -/
def greeted : Greeter × List Message :=
  Greeter.run .checked (londonNode (keyOf 2)) (List.replicate 6 fun _ => atGenesis)
    (.begin (londonNode (keyOf 2)) none) aheadFrames

theorem greeted_stage : greeted.1.stage = .done (.eth69 aheadStatus) :=
  Stage.eq_done (by decide +kernel)

theorem keeps_aheadFrames :
    ∃ x, Heard .checked aheadFrames greeted.2 greeted.1 x ∧
      Delivered greeted.1 x (.eth69 aheadStatus) := by
  have hstage := greeted_stage
  unfold greeted at hstage ⊢
  exact keeps_early_messages .checked (londonNode (keyOf 2)) none
    (List.replicate 6 fun _ => atGenesis) aheadFrames hstage

end Sample

end WasixEth.P2p.Greeting
