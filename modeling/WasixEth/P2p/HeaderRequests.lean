import WasixEth.BlockCodec
import WasixEth.Lib.Machine
import WasixEth.P2p.PeerRegistry
import WasixEth.P2p.SessionTask
import WasixEth.Storage.Database

/-! # Requests for headers

A peer asks for the headers at equal distances from an origin, upwards or downwards. Upwards
the next height is taken from the header that was found, downwards from the name under which
it was asked for; an origin that is named by its hash counts as height zero there.
-/

namespace WasixEth.P2p

open Storage Machine

inductive BlockHashOrNumber where
  | hash (hash : B256)
  | number (number : Nat)
  deriving DecidableEq

namespace BlockHashOrNumber

def asNumber : BlockHashOrNumber → Option Nat
  | number n => some n
  | hash _ => none

end BlockHashOrNumber

structure GetBlockHeaders where
  block : BlockHashOrNumber
  amount : UInt64
  skip : UInt64
  reverse : Bool
  deriving DecidableEq

def PeerRegistry.getSession (registry : PeerRegistry) (peerId : String) : Option PeerSession :=
  (registry.activeSessions.get peerId).map RegisteredSession.session

/-- The sync provider is absent while its lock cannot be had. -/
structure SyncService where
  syncProvider : Option (B256 → Option Block)
  readProvider : ChainTables
  registry : PeerRegistry

namespace SyncService

section Handler

variable [BlockHashing] (mode : Mode) (service : SyncService)

def getBlockByHash (hash : B256) : Option Block :=
  (service.readProvider.blockByHash Faults.none hash).or do
    let sync ← service.syncProvider
    sync hash

/-- The header that is looked up at the start of an iteration. -/
def requestedHeader : BlockHashOrNumber → Option Header
  | .number n => service.readProvider.headerByNumber Faults.none n
  | .hash h => (service.readProvider.header Faults.none h).or
      ((service.getBlockByHash h).map Block.header)

/-- The name of the next header, if there is to be one. -/
def nextId (request : GetBlockHeaders) (currentId : BlockHashOrNumber) (header : Header) :
    Except Fault (Option BlockHashOrNumber) :=
  if request.reverse then do
    let number := currentId.asNumber.getD 0
    let distance ← add mode 64 request.skip.toNat 1
    if number < distance then return none
    let next ← sub mode 64 number request.skip.toNat
    let next ← sub mode 64 next 1
    return some (.number next)
  else do
    let next ← add mode 64 header.number request.skip.toNat
    let next ← add mode 64 next 1
    return some (.number next)

/-- The loop, with so many iterations to go. -/
def collectHeaders (request : GetBlockHeaders) :
    Nat → BlockHashOrNumber → Except Fault (List Header)
  | 0, _ => .ok []
  | amount + 1, currentId =>
      match service.requestedHeader currentId with
      | none => .ok []
      | some header => do
          match ← nextId mode request currentId header with
          | none => return [header]
          | some currentId =>
              let rest ← collectHeaders request amount currentId
              return header :: rest

/-- What is sent to the peer, if it is connected. -/
def handleGetBlockHeaders (peerId : String) (pair : RequestPair GetBlockHeaders) :
    Except Fault (Option (RequestPair (List Header))) :=
  match service.registry.getSession peerId with
  | none => .ok none
  | some _ => do
      let request := pair.message
      let headers ← service.collectHeaders mode request request.amount.toNat request.block
      return some ⟨pair.requestId, headers⟩

end Handler

end SyncService

/-! ## What is asked for -/

/-- The canonical chain as it is stored, from the genesis block to the head. -/
structure Canonical (tables : ChainTables) (headers : List Header) : Prop where
  number : ∀ (height : Nat) (header : Header), headers[height]? = some header →
    header.number = height
  stored : ∀ (height : Nat) (header : Header), headers[height]? = some header → ∃ hash,
    tables.canonicalHeads.get height = some hash ∧ hash ≠ B256.zero ∧
      tables.headers.get hash = some header
  ends : ∀ height, headers.length ≤ height → tables.canonicalHeads.get height = none
  words : headers.length ≤ 2 ^ 64

/-- The height of the block that is named: a number names its height, on the chain or not. -/
def BlockHashOrNumber.Names (tables : ChainTables) (headers : List Header) :
    BlockHashOrNumber → Nat → Prop
  | .number n, height => n = height
  | .hash h, height => height < headers.length ∧ tables.canonicalHeads.get height = some h

def headerAt (headers : List Header) (height : Int) : Option Header :=
  if 0 ≤ height then headers[height.toNat]? else none

/-- At most so many headers, each one `step` from the one before it. -/
def headersFrom (headers : List Header) (step : Int) : Nat → Int → List Header
  | 0, _ => []
  | amount + 1, height =>
      match headerAt headers height with
      | none => []
      | some header => header :: headersFrom headers step amount (height + step)

def GetBlockHeaders.step (request : GetBlockHeaders) : Int :=
  if request.reverse then -(request.skip.toNat + 1) else request.skip.toNat + 1

/-- How many headers are followed by a computation that matters. Where overflow stops the
program, the one after the last header matters as well. -/
def computations (mode : Mode) (amount : Nat) : Nat :=
  if mode = .wrapping then amount - 1 else amount

/-- Upwards, no height that is computed leaves the machine words. -/
def StaysInWords (mode : Mode) (length distance amount origin : Nat) : Prop :=
  ∀ k < computations mode amount, origin + k * distance < length →
    origin + (k + 1) * distance < 2 ^ 64

/-- No height that is computed leaves the machine words, and a request downwards that names
its origin by hash needs no second header. -/
def GetBlockHeaders.Answerable (request : GetBlockHeaders) (mode : Mode) (length origin : Nat) :
    Prop :=
  if request.reverse then
    (0 < computations mode request.amount.toNat → origin < length →
      request.skip.toNat + 1 < 2 ^ 64) ∧
    (request.block.asNumber = none → 1 < request.amount.toNat → origin ≤ request.skip.toNat)
  else
    StaysInWords mode length (request.skip.toNat + 1) request.amount.toNat origin

section Computations

variable {mode : Mode} {length distance amount origin : Nat}

theorem lt_computations_succ {k : Nat} :
    k + 1 < computations mode (amount + 1) ↔ k < computations mode amount := by
  unfold computations
  split <;> omega

theorem staysInWords_zero : StaysInWords mode length distance 0 origin := by
  intro k hk
  unfold computations at hk
  split at hk <;> omega

theorem staysInWords_of_le (h : length ≤ origin) :
    StaysInWords mode length distance amount origin := by
  intro k _ hlt
  omega

theorem staysInWords_succ_iff (hfits : origin + distance < 2 ^ 64) :
    StaysInWords mode length distance (amount + 1) origin ↔
      StaysInWords mode length distance amount (origin + distance) := by
  have hshift (k : Nat) : origin + distance + k * distance = origin + (k + 1) * distance := by
    rw [Nat.succ_mul]
    omega
  constructor
  · intro h k hk hserved
    rw [hshift] at hserved ⊢
    exact h (k + 1) (lt_computations_succ.mpr hk) hserved
  · intro h k hk hserved
    cases k with
    | zero => simpa using hfits
    | succ k =>
        rw [← hshift] at hserved ⊢
        exact h k (lt_computations_succ.mp hk) hserved

theorem staysInWords_iff_of_le (hlt : origin < length) (hlarge : 2 ^ 64 ≤ origin + distance) :
    StaysInWords mode length distance amount origin ↔ computations mode amount = 0 := by
  constructor
  · intro h
    by_contra hpos
    have := h 0 (Nat.pos_of_ne_zero hpos) (by omega)
    omega
  · intro hzero k hk
    omega

end Computations

section Headers

variable {headers : List Header} {step : Int} {amount : Nat} {height : Int}

theorem headerAt_natCast (height : Nat) : headerAt headers height = headers[height]? := by
  unfold headerAt
  rw [if_pos (Int.natCast_nonneg height), Int.toNat_natCast]

theorem headerAt_of_neg (h : height < 0) : headerAt headers height = none :=
  if_neg (Int.not_le.mpr h)

theorem headersFrom_of_none (h : headerAt headers height = none) :
    headersFrom headers step amount height = [] := by
  cases amount with
  | zero => rfl
  | succ amount =>
      unfold headersFrom
      rw [h]

theorem headersFrom_of_some {header : Header} (h : headerAt headers height = some header) :
    headersFrom headers step (amount + 1) height =
      header :: headersFrom headers step amount (height + step) := by
  conv_lhs => unfold headersFrom
  rw [h]

end Headers

/-! ## The next height -/

namespace SyncService

variable {mode : Mode} {request : GetBlockHeaders} {block : BlockHashOrNumber} {header : Header}

theorem nextId_up (hup : request.reverse = false)
    (hfits : header.number + (request.skip.toNat + 1) < 2 ^ 64) :
    nextId mode request block header =
      .ok (some (.number (header.number + (request.skip.toNat + 1)))) := by
  unfold nextId
  rw [hup, if_neg Bool.false_ne_true, add_of_lt (by omega)]
  change (add mode 64 (header.number + request.skip.toNat) 1 >>= _) = _
  rw [add_of_lt (by omega)]
  rfl

/-- The height comes out below the one it was computed from. -/
theorem nextId_up_wrapping (hup : request.reverse = false) (hword : header.number < 2 ^ 64)
    (hlarge : 2 ^ 64 ≤ header.number + (request.skip.toNat + 1)) :
    nextId .wrapping request block header =
      .ok (some (.number (header.number + (request.skip.toNat + 1) - 2 ^ 64))) := by
  have hskip : request.skip.toNat < 2 ^ 64 := request.skip.toNat_lt
  have hwrapped : ((header.number + request.skip.toNat) % 2 ^ 64 + 1) % 2 ^ 64 =
      header.number + (request.skip.toNat + 1) - 2 ^ 64 := by
    omega
  unfold nextId
  rw [hup, if_neg Bool.false_ne_true, add_wrapping]
  change (add .wrapping 64 ((header.number + request.skip.toNat) % 2 ^ 64) 1 >>= _) = _
  rw [add_wrapping, hwrapped]
  rfl

theorem nextId_up_overflow (hmode : mode ≠ .wrapping) (hup : request.reverse = false)
    (hlarge : 2 ^ 64 ≤ header.number + (request.skip.toNat + 1)) :
    nextId mode request block header = .error .overflow := by
  unfold nextId
  rw [hup, if_neg Bool.false_ne_true]
  by_cases hfirst : header.number + request.skip.toNat < 2 ^ 64
  · rw [add_of_lt hfirst]
    change (add mode 64 (header.number + request.skip.toNat) 1 >>= _) = _
    rw [add_of_le hmode (by omega)]
    rfl
  · rw [add_of_le hmode (Nat.not_lt.mp hfirst)]
    rfl

theorem nextId_down_eq {distance next last : Nat} (hdown : request.reverse = true)
    (hdistance : add mode 64 request.skip.toNat 1 = .ok distance)
    (hle : distance ≤ block.asNumber.getD 0)
    (hnext : sub mode 64 (block.asNumber.getD 0) request.skip.toNat = .ok next)
    (hlast : sub mode 64 next 1 = .ok last) :
    nextId mode request block header = .ok (some (.number last)) := by
  unfold nextId
  rw [hdown, if_pos rfl, hdistance]
  change (if block.asNumber.getD 0 < distance then _ else _) = _
  rw [if_neg (Nat.not_lt.mpr hle), hnext]
  change (sub mode 64 next 1 >>= _) = _
  rw [hlast]
  rfl

theorem nextId_down (hdown : request.reverse = true) (hfits : request.skip.toNat + 1 < 2 ^ 64)
    (hle : request.skip.toNat + 1 ≤ block.asNumber.getD 0) :
    nextId mode request block header =
      .ok (some (.number (block.asNumber.getD 0 - (request.skip.toNat + 1)))) := by
  have hlast : block.asNumber.getD 0 - request.skip.toNat - 1 =
      block.asNumber.getD 0 - (request.skip.toNat + 1) := Nat.sub_sub _ _ _
  rw [← hlast]
  exact nextId_down_eq hdown (add_of_lt hfits) hle (sub_of_le (by omega)) (sub_of_le (by omega))

theorem nextId_down_last (hdown : request.reverse = true)
    (hfits : request.skip.toNat + 1 < 2 ^ 64)
    (hlt : block.asNumber.getD 0 < request.skip.toNat + 1) :
    nextId mode request block header = .ok none := by
  unfold nextId
  rw [hdown, if_pos rfl, add_of_lt hfits]
  change (if block.asNumber.getD 0 < request.skip.toNat + 1 then _ else _) = _
  rw [if_pos hlt]
  rfl

/-- The distance wraps around to zero, and the height stays as it is. -/
theorem nextId_down_wrapping (hdown : request.reverse = true)
    (hlarge : 2 ^ 64 ≤ request.skip.toNat + 1) (hword : block.asNumber.getD 0 < 2 ^ 64) :
    nextId .wrapping request block header =
      .ok (some (.number (block.asNumber.getD 0))) := by
  have hskip : request.skip.toNat < 2 ^ 64 := request.skip.toNat_lt
  generalize hn : block.asNumber.getD 0 = n at hword ⊢
  have hsame : (2 ^ 64 + (2 ^ 64 + n - request.skip.toNat) % 2 ^ 64 - 1) % 2 ^ 64 = n := by
    omega
  apply nextId_down_eq hdown add_wrapping
  · omega
  · rw [hn]
    exact sub_wrapping hword hskip.le
  · rw [sub_wrapping (Nat.mod_lt _ (by decide)) (by decide), hsame]

theorem nextId_down_overflow (hmode : mode ≠ .wrapping) (hdown : request.reverse = true)
    (hlarge : 2 ^ 64 ≤ request.skip.toNat + 1) :
    nextId mode request block header = .error .overflow := by
  unfold nextId
  rw [hdown, if_pos rfl]
  dsimp only
  rw [add_of_le hmode hlarge]
  rfl

end SyncService

/-! ## The loop -/

namespace SyncService

variable [BlockHashing] {mode : Mode} {service : SyncService} {request : GetBlockHeaders}
  {headers : List Header} {block : BlockHashOrNumber} {amount origin : Nat} {header : Header}

theorem requestedHeader_eq (hchain : Canonical service.readProvider headers)
    (hnames : block.Names service.readProvider headers origin) :
    service.requestedHeader block = headers[origin]? := by
  have hread : ∀ (header : Header), headers[origin]? = some header → ∃ hash,
      service.readProvider.canonicalHeads.get origin = some hash ∧
        service.readProvider.header Faults.none hash = some header := by
    intro header hheader
    obtain ⟨hash, hcanonical, hzero, hstored⟩ := hchain.stored origin header hheader
    refine ⟨hash, hcanonical, ?_⟩
    unfold ChainTables.header
    rw [if_neg hzero, hstored]
    rfl
  cases block with
  | number n =>
      obtain rfl : n = origin := hnames
      change service.readProvider.headerByNumber Faults.none n = _
      unfold ChainTables.headerByNumber ChainTables.blockHash
      cases hheader : headers[n]? with
      | none =>
          rw [hchain.ends n (List.getElem?_eq_none_iff.mp hheader)]
          rfl
      | some header =>
          obtain ⟨hash, hcanonical, hstored⟩ := hread header hheader
          rw [hcanonical]
          exact hstored
  | hash h =>
      obtain ⟨hlt, hnamed⟩ := hnames
      have hheader : headers[origin]? = some headers[origin] := List.getElem?_eq_getElem hlt
      obtain ⟨hash, hcanonical, hstored⟩ := hread _ hheader
      obtain rfl : hash = h := Option.some.inj (hcanonical.symm.trans hnamed)
      change (service.readProvider.header Faults.none hash).or _ = _
      rw [hstored, hheader]
      rfl

theorem requestedHeader_number (hchain : Canonical service.readProvider headers) (n : Nat) :
    service.requestedHeader (.number n) = headers[n]? :=
  requestedHeader_eq hchain rfl

theorem collectHeaders_of_none (h : service.requestedHeader block = none) :
    service.collectHeaders mode request amount block = .ok [] := by
  cases amount with
  | zero => rfl
  | succ amount =>
      unfold collectHeaders
      rw [h]

theorem collectHeaders_ne_nil (h : service.requestedHeader block = some header) :
    service.collectHeaders mode request (amount + 1) block ≠ .ok [] := by
  unfold collectHeaders
  rw [h]
  intro hempty
  obtain ⟨next, -, hnext⟩ := bind_ok.mp hempty
  cases next with
  | none => cases hnext
  | some next =>
      obtain ⟨rest, -, hrest⟩ := bind_ok.mp hnext
      cases hrest

theorem collectHeaders_of_error {fault : Fault} (h : service.requestedHeader block = some header)
    (hnext : nextId mode request block header = .error fault) :
    service.collectHeaders mode request (amount + 1) block = .error fault := by
  unfold collectHeaders
  rw [h]
  dsimp only
  rw [hnext]
  rfl

theorem collectHeaders_of_last (h : service.requestedHeader block = some header)
    (hnext : nextId mode request block header = .ok none) :
    service.collectHeaders mode request (amount + 1) block = .ok [header] := by
  unfold collectHeaders
  rw [h]
  dsimp only
  rw [hnext]
  rfl

theorem collectHeaders_eq_cons_iff {next : BlockHashOrNumber} {rest : List Header}
    (h : service.requestedHeader block = some header)
    (hnext : nextId mode request block header = .ok (some next)) :
    service.collectHeaders mode request (amount + 1) block = .ok (header :: rest) ↔
      service.collectHeaders mode request amount next = .ok rest := by
  conv_lhs => unfold collectHeaders
  rw [h]
  dsimp only
  rw [hnext]
  change (service.collectHeaders mode request amount next >>= fun rest =>
    pure (header :: rest)) = .ok (header :: rest) ↔ _
  rw [bind_ok]
  constructor
  · rintro ⟨found, hfound, hcons⟩
    cases hcons
    exact hfound
  · intro hrest
    exact ⟨rest, hrest, rfl⟩

/-! ## Upwards -/

/-- One iteration for each header: the sum after it either fits, or is no height any more. -/
theorem collectHeaders_up_iff (hchain : Canonical service.readProvider headers)
    (hup : request.reverse = false)
    (hnames : block.Names service.readProvider headers origin) :
    service.collectHeaders mode request amount block =
        .ok (headersFrom headers (request.skip.toNat + 1) amount origin) ↔
      StaysInWords mode headers.length (request.skip.toNat + 1) amount origin := by
  induction amount generalizing block origin with
  | zero => exact iff_of_true rfl staysInWords_zero
  | succ amount ih =>
      have hrequested := requestedHeader_eq hchain hnames
      have hat : headerAt headers origin = headers[origin]? := headerAt_natCast origin
      cases hheader : headers[origin]? with
      | none =>
          rw [hheader] at hrequested hat
          rw [collectHeaders_of_none hrequested, headersFrom_of_none hat]
          exact iff_of_true rfl (staysInWords_of_le (List.getElem?_eq_none_iff.mp hheader))
      | some header =>
          rw [hheader] at hrequested hat
          obtain ⟨hlt, -⟩ := List.getElem?_eq_some_iff.mp hheader
          have hnumber := hchain.number origin header hheader
          have hwords := hchain.words
          have hcast : (origin : Int) + (request.skip.toNat + 1) =
              (origin + (request.skip.toNat + 1) : Nat) := by
            push_cast
            rfl
          rw [headersFrom_of_some hat, hcast]
          by_cases hfits : origin + (request.skip.toNat + 1) < 2 ^ 64
          · have hnext : nextId mode request block header =
                .ok (some (.number (origin + (request.skip.toNat + 1)))) := by
              rw [nextId_up hup (by omega), hnumber]
            rw [collectHeaders_eq_cons_iff hrequested hnext, staysInWords_succ_iff hfits]
            exact ih rfl
          · -- the chain has ended there, so nothing may follow
            have hlarge : 2 ^ 64 ≤ header.number + (request.skip.toNat + 1) := by omega
            have hend : headerAt headers (origin + (request.skip.toNat + 1) : Nat) = none := by
              rw [headerAt_natCast]
              exact List.getElem?_eq_none (by omega)
            rw [headersFrom_of_none hend, staysInWords_iff_of_le hlt (by omega)]
            by_cases hmode : mode = .wrapping
            · subst hmode
              rw [collectHeaders_eq_cons_iff hrequested
                (nextId_up_wrapping hup (by omega) hlarge)]
              cases amount with
              | zero => exact iff_of_true rfl rfl
              | succ amount =>
                  refine iff_of_false ?_ (Nat.succ_ne_zero amount)
                  have hlower : header.number + (request.skip.toNat + 1) - 2 ^ 64 <
                      headers.length := by
                    have hskip : request.skip.toNat < 2 ^ 64 := request.skip.toNat_lt
                    omega
                  exact collectHeaders_ne_nil
                    ((requestedHeader_number hchain _).trans (List.getElem?_eq_getElem hlower))
            · rw [collectHeaders_of_error hrequested (nextId_up_overflow hmode hup hlarge)]
              refine iff_of_false nofun ?_
              unfold computations
              rw [if_neg hmode]
              exact Nat.succ_ne_zero amount

/-! ## Downwards -/

/-- From a height that is named by its number the loop goes down to the genesis block. -/
theorem collectHeaders_down (hchain : Canonical service.readProvider headers)
    (hdown : request.reverse = true) (hfits : request.skip.toNat + 1 < 2 ^ 64) :
    service.collectHeaders mode request amount (.number origin) =
      .ok (headersFrom headers (-(request.skip.toNat + 1)) amount origin) := by
  induction amount generalizing origin with
  | zero => rfl
  | succ amount ih =>
      have hrequested := requestedHeader_number hchain origin
      have hat : headerAt headers origin = headers[origin]? := headerAt_natCast origin
      cases hheader : headers[origin]? with
      | none =>
          rw [hheader] at hrequested hat
          rw [collectHeaders_of_none hrequested, headersFrom_of_none hat]
      | some header =>
          rw [hheader] at hrequested hat
          rw [headersFrom_of_some hat]
          by_cases hlt : origin < request.skip.toNat + 1
          · rw [headersFrom_of_none (headerAt_of_neg (by omega))]
            exact collectHeaders_of_last hrequested (nextId_down_last hdown hfits hlt)
          · have hcast : (origin : Int) + -(request.skip.toNat + 1) =
                (origin - (request.skip.toNat + 1) : Nat) := by
              omega
            rw [hcast, collectHeaders_eq_cons_iff hrequested
              (nextId_down hdown hfits (Nat.not_lt.mp hlt))]
            exact ih

/-- A height that stays as it is cannot be followed by an answer. -/
theorem collectHeaders_down_overflow_iff (hchain : Canonical service.readProvider headers)
    (hdown : request.reverse = true) (hlarge : 2 ^ 64 ≤ request.skip.toNat + 1)
    (hnumber : block.asNumber.getD 0 < headers.length) (hlt : origin < headers.length)
    (hnames : block.Names service.readProvider headers origin) :
    service.collectHeaders mode request amount block =
        .ok (headersFrom headers (-(request.skip.toNat + 1)) amount origin) ↔
      computations mode amount = 0 := by
  have hwords := hchain.words
  have hrequested : service.requestedHeader block = some headers[origin] :=
    (requestedHeader_eq hchain hnames).trans (List.getElem?_eq_getElem hlt)
  have hat : headerAt headers origin = some headers[origin] :=
    (headerAt_natCast origin).trans (List.getElem?_eq_getElem hlt)
  cases amount with
  | zero =>
      refine iff_of_true rfl ?_
      unfold computations
      split <;> rfl
  | succ amount =>
      rw [headersFrom_of_some hat, headersFrom_of_none (headerAt_of_neg (by omega))]
      by_cases hmode : mode = .wrapping
      · subst hmode
        rw [collectHeaders_eq_cons_iff hrequested
          (nextId_down_wrapping hdown hlarge (by omega))]
        cases amount with
        | zero => exact iff_of_true rfl rfl
        | succ amount =>
            refine iff_of_false ?_ (Nat.succ_ne_zero amount)
            exact collectHeaders_ne_nil
              ((requestedHeader_number hchain _).trans (List.getElem?_eq_getElem hnumber))
      · rw [collectHeaders_of_error hrequested (nextId_down_overflow hmode hdown hlarge)]
        refine iff_of_false nofun ?_
        unfold computations
        rw [if_neg hmode]
        exact Nat.succ_ne_zero amount

/-- An origin that is named by its hash counts as height zero, so only its own header is found. -/
theorem collectHeaders_down_hash_iff {hash : B256} (hchain : Canonical service.readProvider headers)
    (hdown : request.reverse = true) (hfits : request.skip.toNat + 1 < 2 ^ 64)
    (hnames : (BlockHashOrNumber.hash hash).Names service.readProvider headers origin) :
    service.collectHeaders mode request amount (.hash hash) =
        .ok (headersFrom headers (-(request.skip.toNat + 1)) amount origin) ↔
      (1 < amount → origin ≤ request.skip.toNat) := by
  have hlt : origin < headers.length := hnames.1
  have hrequested : service.requestedHeader (.hash hash) = some headers[origin] :=
    (requestedHeader_eq hchain hnames).trans (List.getElem?_eq_getElem hlt)
  have hat : headerAt headers origin = some headers[origin] :=
    (headerAt_natCast origin).trans (List.getElem?_eq_getElem hlt)
  match amount with
  | 0 => exact iff_of_true rfl nofun
  | 1 =>
      rw [headersFrom_of_some hat,
        collectHeaders_of_last hrequested (nextId_down_last hdown hfits (Nat.succ_pos _))]
      exact iff_of_true rfl fun h => absurd h (Nat.lt_irrefl 1)
  | amount + 2 =>
      rw [headersFrom_of_some hat,
        collectHeaders_of_last hrequested (nextId_down_last hdown hfits (Nat.succ_pos _))]
      by_cases hle : origin ≤ request.skip.toNat
      · rw [headersFrom_of_none (headerAt_of_neg (by omega))]
        exact iff_of_true rfl fun _ => hle
      · have hcast : (origin : Int) + -(request.skip.toNat + 1) =
            (origin - (request.skip.toNat + 1) : Nat) := by
          omega
        have hbelow : headerAt headers (origin - (request.skip.toNat + 1) : Nat) =
            some (headers.get ⟨origin - (request.skip.toNat + 1), by omega⟩) := by
          rw [headerAt_natCast]
          exact List.getElem?_eq_getElem _
        rw [hcast, headersFrom_of_some hbelow]
        refine iff_of_false nofun fun h => hle (h (by omega))

theorem collectHeaders_down_iff (hchain : Canonical service.readProvider headers)
    (hdown : request.reverse = true)
    (hnames : block.Names service.readProvider headers origin) :
    service.collectHeaders mode request amount block =
        .ok (headersFrom headers (-(request.skip.toNat + 1)) amount origin) ↔
      (0 < computations mode amount → origin < headers.length →
        request.skip.toNat + 1 < 2 ^ 64) ∧
      (block.asNumber = none → 1 < amount → origin ≤ request.skip.toNat) := by
  have hwords := hchain.words
  cases block with
  | number n =>
      obtain rfl : n = origin := hnames
      by_cases hfits : request.skip.toNat + 1 < 2 ^ 64
      · exact iff_of_true (collectHeaders_down hchain hdown hfits) ⟨fun _ _ => hfits, nofun⟩
      rcases Nat.lt_or_ge n headers.length with hlt | hle
      · have hnumber : (BlockHashOrNumber.number n).asNumber.getD 0 < headers.length := hlt
        rw [collectHeaders_down_overflow_iff hchain hdown (Nat.not_lt.mp hfits) hnumber hlt rfl]
        constructor
        · intro hzero
          exact ⟨fun hpos => absurd hzero (Nat.ne_of_gt hpos), nofun⟩
        · intro h
          by_contra hpos
          exact hfits (h.1 (Nat.pos_of_ne_zero hpos) hlt)
      · have hnone : headers[n]? = none := List.getElem?_eq_none hle
        rw [collectHeaders_of_none ((requestedHeader_number hchain n).trans hnone),
          headersFrom_of_none ((headerAt_natCast n).trans hnone)]
        exact iff_of_true rfl ⟨fun _ hlt => absurd hlt (Nat.not_lt.mpr hle), nofun⟩
  | hash hash =>
      have hlt : origin < headers.length := hnames.1
      by_cases hfits : request.skip.toNat + 1 < 2 ^ 64
      · rw [collectHeaders_down_hash_iff hchain hdown hfits hnames]
        exact ⟨fun h => ⟨fun _ _ => hfits, fun _ => h⟩, fun h => h.2 rfl⟩
      · have hzero : (BlockHashOrNumber.hash hash).asNumber.getD 0 < headers.length :=
          Nat.zero_lt_of_lt hlt
        rw [collectHeaders_down_overflow_iff hchain hdown (Nat.not_lt.mp hfits) hzero hlt hnames]
        constructor
        · intro hzero
          exact ⟨fun hpos => absurd hzero (Nat.ne_of_gt hpos), fun _ _ => by omega⟩
        · intro h
          by_contra hpos
          exact hfits (h.1 (Nat.pos_of_ne_zero hpos) hlt)

/-! ## The handler -/

theorem handleGetBlockHeaders_eq_iff_collectHeaders {peerId : String} {session : PeerSession}
    {pair : RequestPair GetBlockHeaders}
    (hsession : service.registry.getSession peerId = some session) :
    service.handleGetBlockHeaders mode peerId pair = .ok (some ⟨pair.requestId, headers⟩) ↔
      service.collectHeaders mode pair.message pair.message.amount.toNat pair.message.block =
        .ok headers := by
  unfold handleGetBlockHeaders
  rw [hsession]
  dsimp only
  rw [bind_ok]
  constructor
  · rintro ⟨found, hfound, hpair⟩
    cases hpair
    exact hfound
  · intro h
    exact ⟨headers, h, rfl⟩

/-- A connected peer that asks about the canonical chain gets the headers it asks for, exactly
where the heights fit and no origin of a request downwards is named by its hash in vain. -/
theorem handleGetBlockHeaders_eq_iff {peerId : String} {session : PeerSession}
    {pair : RequestPair GetBlockHeaders} (hchain : Canonical service.readProvider headers)
    (hnames : pair.message.block.Names service.readProvider headers origin)
    (hsession : service.registry.getSession peerId = some session) :
    service.handleGetBlockHeaders mode peerId pair = .ok (some ⟨pair.requestId,
        headersFrom headers pair.message.step pair.message.amount.toNat origin⟩) ↔
      pair.message.Answerable mode headers.length origin := by
  rw [handleGetBlockHeaders_eq_iff_collectHeaders hsession]
  unfold GetBlockHeaders.Answerable GetBlockHeaders.step
  cases hreverse : pair.message.reverse with
  | false =>
      rw [if_neg Bool.false_ne_true, if_neg Bool.false_ne_true]
      exact collectHeaders_up_iff hchain hreverse hnames
  | true =>
      rw [if_pos rfl, if_pos rfl]
      exact collectHeaders_down_iff hchain hreverse hnames

end SyncService

section Sample

attribute [local instance] keccak keccakHashing

/-- Two blocks of the small chain. -/
def shortChain : ChainTables :=
  { emptyDatabase.chain with
    canonicalHeads := ((∅ : Table Nat B256).insert 0 genesisHash).insert 1 firstHash
    headers := ((∅ : Table B256 Header).insert genesisHash genesisHeader).insert firstHash
      firstHeader }

/-- A service with one peer. -/
def servingShortChain : SyncService where
  syncProvider := none
  readProvider := shortChain
  registry :=
    { localIdentity := ⟨B256.zero, B256.zero⟩
      activeSessions := (∅ : Table String RegisteredSession).insert "peer" ⟨1, ⟨1, true⟩⟩
      disconnected := [] }

theorem canonical_shortChain : Canonical shortChain [genesisHeader, firstHeader] where
  number := by
    intro height header hheader
    match height with
    | 0 =>
        obtain rfl : genesisHeader = header := Option.some.inj hheader
        rfl
    | 1 =>
        obtain rfl : firstHeader = header := Option.some.inj hheader
        rfl
    | _ + 2 => cases hheader
  stored := by
    intro height header hheader
    have hne : genesisHash ≠ firstHash := by decide +kernel
    match height with
    | 0 =>
        obtain rfl : genesisHeader = header := Option.some.inj hheader
        refine ⟨genesisHash, rfl, by decide +kernel, ?_⟩
        exact (Table.get_insert_of_ne firstHeader hne).trans (Table.get_insert_self _ _ _)
    | 1 =>
        obtain rfl : firstHeader = header := Option.some.inj hheader
        exact ⟨firstHash, rfl, by decide +kernel, Table.get_insert_self _ _ _⟩
    | _ + 2 => cases hheader
  ends := by
    intro height hle
    match height with
    | 0 => cases hle
    | 1 => exact absurd hle (by decide)
    | _ + 2 => rfl
  words := by decide

/-- The head and the block before it, with the head named in one way or the other. -/
def headAndParent (head : BlockHashOrNumber) : RequestPair GetBlockHeaders :=
  ⟨7, head, 2, 0, true⟩

theorem handleGetBlockHeaders_number :
    servingShortChain.handleGetBlockHeaders .checked "peer" (headAndParent (.number 1)) =
      .ok (some ⟨7, [firstHeader, genesisHeader]⟩) := by
  have hnames : (BlockHashOrNumber.number 1).Names shortChain [genesisHeader, firstHeader] 1 :=
    rfl
  have hanswerable : (headAndParent (.number 1)).message.Answerable .checked 2 1 :=
    ⟨fun _ _ => by decide, nofun⟩
  have hiff : servingShortChain.handleGetBlockHeaders .checked "peer"
      (headAndParent (.number 1)) = .ok (some ⟨7, headersFrom [genesisHeader, firstHeader]
        (headAndParent (.number 1)).message.step 2 1⟩) ↔
      (headAndParent (.number 1)).message.Answerable .checked 2 1 :=
    SyncService.handleGetBlockHeaders_eq_iff canonical_shortChain hnames rfl
  exact hiff.mpr hanswerable

/-- The head by its hash is answered alone. -/
theorem handleGetBlockHeaders_hash : ¬ ∀ (mode : Mode) (service : SyncService) (peerId : String)
    (session : PeerSession) (pair : RequestPair GetBlockHeaders) (headers : List Header)
    (origin : Nat), Canonical service.readProvider headers →
      pair.message.block.Names service.readProvider headers origin →
      service.registry.getSession peerId = some session →
      service.handleGetBlockHeaders mode peerId pair = .ok (some ⟨pair.requestId,
        headersFrom headers pair.message.step pair.message.amount.toNat origin⟩) := by
  intro hexact
  have hanswer := hexact .wrapping servingShortChain "peer" ⟨1, true⟩
    (headAndParent (.hash firstHash)) [genesisHeader, firstHeader] 1 canonical_shortChain
    ⟨by decide, rfl⟩ rfl
  have halone : servingShortChain.handleGetBlockHeaders .wrapping "peer"
      (headAndParent (.hash firstHash)) = .ok (some ⟨7, [firstHeader]⟩) := by
    decide +kernel
  rw [halone] at hanswer
  exact absurd hanswer (by decide +kernel)

end Sample

end WasixEth.P2p
