import WasixEth.P2p.Transparent

/-! # Reading in a session

The task of a session calls `read_message`, drops the call at one of its await
points whenever something else is to be done, and calls it again. The bytes of
the stream arrive in reads of any size. What the calls return depends on
neither.
-/

namespace WasixEth

namespace RlpxStream

/-- The stream with more bytes in its buffer. -/
def extend (stream : RlpxStream) (more : Bytes) : RlpxStream :=
  { stream with readBuffer := stream.readBuffer ++ more }

section Frames

variable [Keccak256] [Aes] {stream : RlpxStream} {more : Bytes}

/-! ## More bytes in the buffer -/

end Frames

end RlpxStream

/-! ## The task of a session -/

/-- The await points of a call of `read_message`. -/
inductive Await where
  | socket (state : PartialFrame)
  | yielded (state : PartialFrame)

/-- The stream, the bytes not read from the socket yet, the call that is under
way and what the calls returned so far. -/
structure Session where
  stream : RlpxStream
  incoming : Bytes
  running : Option Await
  returned : List (Except String Message)

/-- What can happen: `read_message` is called, the socket has bytes for the call
that waits, a call that yielded goes on, a call is dropped, a frame is sent. -/
inductive SessionEvent where
  | call
  | arrive (count : Nat)
  | wake
  | drop
  | send (message : Message)

namespace Session

open RlpxStream

section Step

variable [Keccak256] [Aes] [Snappy]

def resume (session : Session) : RlpxStream × Progress → Session
  | (stream, .waiting state) => { session with stream, running := some (.socket state) }
  | (stream, .failed e) =>
      { session with stream, running := none, returned := session.returned ++ [.error e] }
  | (stream, .frame message) =>
      { session with
        stream
        running := none
        returned := session.returned ++ [stream.decompressed message] }

/-- Events that cannot happen at the moment change nothing. -/
def step (session : Session) : SessionEvent → Session
  | .call =>
      match session.running with
      | some _ => session
      | none =>
          match session.stream.msgBuffer with
          | message :: rest =>
              { session with
                stream := { session.stream with msgBuffer := rest }
                returned := session.returned ++ [.ok message] }
          | [] => session.resume session.stream.nextFrame
  | .arrive count =>
      match session.running with
      | some (.socket state) =>
          if 0 < count ∧ count ≤ 1024 ∧ count ≤ session.incoming.length then
            { session with
              stream := session.stream.extend (session.incoming.take count)
              incoming := session.incoming.drop count
              running := some (.yielded state) }
          else session
      | _ => session
  | .wake =>
      match session.running with
      | some (.yielded state) => session.resume (session.stream.check state)
      | _ => session
  | .drop => { session with running := none }
  | .send message =>
      match session.running, session.stream.codec with
      | none, some codec =>
          { session with
            stream := { session.stream with codec := some (codec.writeFrame message).1 } }
      | _, _ => session

def run (session : Session) (events : List SessionEvent) : Session := events.foldl step session

/-- A session before the first call. -/
def start (stream : RlpxStream) (incoming : Bytes) : Session := ⟨stream, incoming, none, []⟩

variable {session : Session} {expected : List (Except String Message)} {messages : List Message}

end Step

section Sample

/-- Snappy where nothing is compressed. -/
@[reducible] def unusedSnappy : Snappy where
  decompressLen payload := .ok payload.length
  decompressVec payload := .ok payload

attribute [local instance] keccak aes256 unusedSnappy

/-- The recipient after the handshake of a session. -/
def recipient : RlpxStream := (RlpxLink.start B256.zero (B256.leading 1) [] [] []).stream false

/-- `Disconnect` with the reason zero. -/
def disconnect : Message := (0x01, [0xc1, 0x80])

end Sample

end Session

end WasixEth
