import WasixEth.P2p.SessionTask

/-! # Responses and their requesters

The peer answers each request with a response of its kind, which carries the
request's id from version 66 on and comes in the order of the requests before.
Each waiter is handed the response to its own request exactly if the id that
the session goes by is the request's: before version 66 it goes by 0.
-/

namespace WasixEth.P2p

open SessionTask

section Exchanges

variable [EthItems]

/-! ## Exchanges with a peer -/

structure Asked where
  kind : Kind
  request : RequestPair Bytes
  responseTx : ResponseTx
  deriving DecidableEq

namespace Asked

abbrev id (asked : Asked) : UInt64 := asked.request.requestId

/-- The answer as it comes from a peer. -/
def responsePayload (version : EthVersion) (asked : Asked) (response : Response asked.kind) :
    Bytes :=
  if version.hasRequestId then RequestPair.encode Response.encode ⟨asked.id, response⟩
  else response.encode

end Asked

/-- What happens in a session: a request is sent, or could not be, the peer
answers one, or something else arrives. -/
inductive Act where
  | ask (asked : Asked)
  | fail (asked : Asked) (error : String)
  | answer (asked : Asked) (response : Response asked.kind)
  | other (outcome : Except String Unit) (event : Event)

namespace Act

def event (version : EthVersion) : Act → Except String Unit × Event
  | .ask asked => (.ok (), .request (.get asked.kind asked.request asked.responseTx))
  | .fail asked error => (.error error, .request (.get asked.kind asked.request asked.responseTx))
  | .answer asked response =>
      (.ok (), .message (asked.kind.responseId.toU8 + 0x10,
        asked.responsePayload version response))
  | .other outcome event => (outcome, event)

def asked? : Act → Option Asked
  | .ask asked => some asked
  | .fail asked _ => some asked
  | _ => none

def answered? : Act → Option Asked
  | .answer asked _ => some asked
  | _ => none

end Act

/-- An event that neither ends the session nor has to do with its requests. -/
def SessionTask.Event.Unrelated : Event → Prop
  | .request (.get _ _ _) => False
  | .request (.disconnect _) => False
  | .request _ => True
  | .tick => True
  | .message (id, _) => id ≠ 0x01 ∧ ∀ kind : Kind, id ≠ kind.responseId.toU8 + 0x10

/-- Every answer is to a request that is still open: to any of them if it says
to which, else to the first. -/
def Answers (version : EthVersion) : List Asked → List Act → Prop
  | _, [] => True
  | waiting, .ask asked :: acts => Answers version (waiting ++ [asked]) acts
  | waiting, .fail _ _ :: acts => Answers version waiting acts
  | waiting, .answer asked response :: acts =>
      asked ∈ waiting ∧ (version.hasRequestId = false → waiting.head? = some asked) ∧
        (asked.responsePayload version response).length ≤ RlpxStream.maxPayloadSize ∧
        Answers version (waiting.erase asked) acts
  | waiting, .other _ event :: acts => event.Unrelated ∧ Answers version waiting acts

/-- A session with distinct requests that a peer answers. -/
structure Exchange (version : EthVersion) where
  acts : List Act
  answers : Answers version [] acts
  distinct_ids : ((acts.filterMap Act.asked?).map (·.id)).Nodup
  distinct_responseTxs : ((acts.filterMap Act.asked?).map (·.responseTx)).Nodup

namespace Exchange

variable {version : EthVersion}

def requests (exchange : Exchange version) : List Asked := exchange.acts.filterMap Act.asked?

def answered (exchange : Exchange version) : List Asked := exchange.acts.filterMap Act.answered?

/-- The session at the end. -/
def task (exchange : Exchange version) : SessionTask :=
  run (.new (negotiated version)) (exchange.acts.map (Act.event version))

end Exchange

/-- What a waiter gets: an error or the message of a response. -/
abbrev Outcome := Except String (Σ kind, Response kind)

def Delivery.outcome (delivery : Delivery) : Outcome :=
  delivery.result.map fun response => ⟨response.1, response.2.message⟩

def SessionTask.received (task : SessionTask) (responseTx : ResponseTx) : List Outcome :=
  (task.delivered.filter (·.responseTx = responseTx)).map (·.outcome)

/-- The id that a response to a request is filed under, if it is looked at. -/
def Permits (version : EthVersion) (kind : Kind) (id : UInt64) : Prop :=
  (version.hasRequestId = false → id = 0) ∧
    (kind = .nodeData → version.supportsGetNodeData = true)

/-! ## Single steps -/

namespace SessionTask

variable {version : EthVersion} {task : SessionTask}

/-- The task has agreed on a version with its peer. -/
structure Speaks (task : SessionTask) (version : EthVersion) : Prop where
  capabilities : task.sharedCapabilities = negotiated version
  offset : task.ethOffset = 0x10

namespace Speaks

theorem ethVersion_eq (hspeaks : task.Speaks version) : task.ethVersion = some version := by
  rw [ethVersion, hspeaks.capabilities]
  exact EthVersion.tryFrom_toU8 version

theorem hasRequestId_eq (hspeaks : task.Speaks version) :
    task.hasRequestId = version.hasRequestId := by
  rw [hasRequestId, hspeaks.ethVersion_eq]
  rfl

theorem supportsGetNodeData_eq (hspeaks : task.Speaks version) :
    task.supportsGetNodeData = version.supportsGetNodeData := by
  rw [supportsGetNodeData, hspeaks.ethVersion_eq]
  rfl

theorem deliver (hspeaks : task.Speaks version) (responseTx : ResponseTx)
    (result : Except String (Σ kind, RequestPair (Response kind))) :
    (task.deliver responseTx result).Speaks version :=
  ⟨hspeaks.capabilities, hspeaks.offset⟩

theorem setPending (hspeaks : task.Speaks version) (kind : Kind)
    (table : Table UInt64 ResponseTx) : (task.setPending kind table).Speaks version :=
  ⟨hspeaks.capabilities, hspeaks.offset⟩

theorem withSent (hspeaks : task.Speaks version) (sent : List Message) :
    ({ task with sent := sent } : SessionTask).Speaks version :=
  ⟨hspeaks.capabilities, hspeaks.offset⟩

end Speaks

theorem sendRaw_ok (task : SessionTask) (message : Message) :
    task.sendRaw (.ok ()) message = ({ task with sent := task.sent ++ [message] }, .ok ()) :=
  rfl

/-- Whatever becomes of a write, only what is sent may change. -/
theorem exists_sendRaw_fst (task : SessionTask) (outcome : Except String Unit)
    (message : Message) :
    ∃ sent, (task.sendRaw outcome message).1 = { task with sent := sent } := by
  cases outcome with
  | error e => exact ⟨task.sent, rfl⟩
  | ok _ => exact ⟨_, rfl⟩

theorem Speaks.sendEth_eq (hspeaks : task.Speaks version) (outcome : Except String Unit)
    (payload : Bytes) (id : EthMessageId) :
    task.sendEth outcome payload id = task.sendRaw outcome (id.toU8 + 0x10, payload) := by
  unfold sendEth
  rw [hspeaks.capabilities]
  rfl

theorem Speaks.step_ask (hspeaks : task.Speaks version) (kind : Kind)
    (request : RequestPair Bytes) (responseTx : ResponseTx) :
    ∃ sent, task.step (.ok ()) (.request (.get kind request responseTx)) =
      (({ task with sent := sent } : SessionTask).setPending kind
        ((task.pending kind).insert request.requestId responseTx), true) := by
  refine ⟨task.sent ++ [(kind.requestId.toU8 + 0x10, task.requestPayload request)], ?_⟩
  rw [step, handleRequest, hspeaks.sendEth_eq, sendRaw_ok]

theorem Speaks.step_fail (hspeaks : task.Speaks version) (kind : Kind)
    (request : RequestPair Bytes) (responseTx : ResponseTx) (error : String) :
    task.step (.error error) (.request (.get kind request responseTx)) =
      (task.deliver responseTx (.error error), true) := by
  rw [step, handleRequest, hspeaks.sendEth_eq]
  rfl

/-- What becomes of a response of some kind. -/
def respond (task : SessionTask) (version : EthVersion) (kind : Kind) (payload : Bytes) :
    SessionTask :=
  if kind = .nodeData ∧ version.supportsGetNodeData = false then task
  else task.handleResponse kind payload

theorem Speaks.handleEthMessage_of_decode (hspeaks : task.Speaks version) {ethId : UInt8}
    {kind : Kind} (payload : Bytes) (hdecode : EthMessageId.decode ethId = kind.responseId) :
    task.handleEthMessage ethId payload = task.respond version kind payload := by
  unfold handleEthMessage respond
  rw [hdecode]
  cases kind with
  | headers => simp [Kind.responseId, handleBlockHeaders]
  | bodies => simp [Kind.responseId, handleBlockBodies]
  | pooledTransactions => simp [Kind.responseId, handlePooledTransactions]
  | receipts =>
      simp [Kind.responseId, handleReceipts, hspeaks.ethVersion_eq, EthVersion.supportsReceipts]
  | nodeData =>
      cases hsupports : version.supportsGetNodeData <;>
        simp [Kind.responseId, handleNodeData, hspeaks.supportsGetNodeData_eq, hsupports]

theorem handleEthMessage_of_forall_ne (task : SessionTask) {ethId : UInt8} (payload : Bytes)
    (hne : ∀ kind : Kind, EthMessageId.decode ethId ≠ kind.responseId) :
    task.handleEthMessage ethId payload = task := by
  unfold handleEthMessage
  split
  next heq => exact absurd heq (hne .headers)
  next heq => exact absurd heq (hne .bodies)
  next heq => exact absurd heq (hne .pooledTransactions)
  next heq => exact absurd heq (hne .receipts)
  next heq => exact absurd heq (hne .nodeData)
  next => rfl

theorem Speaks.step_answer (hspeaks : task.Speaks version) (outcome : Except String Unit)
    (kind : Kind) (payload : Bytes) :
    task.step outcome (.message (kind.responseId.toU8 + 0x10, payload)) =
      (task.respond version kind payload, true) := by
  have hid : ¬ kind.responseId.toU8 + 0x10 < 0x10 := by
    cases kind <;> decide
  have hdecode : EthMessageId.decode (kind.responseId.toU8 + 0x10 - 0x10) = kind.responseId := by
    cases kind <;> rfl
  rw [step, handleMessage, hspeaks.offset, if_neg hid,
    hspeaks.handleEthMessage_of_decode payload hdecode]

theorem Speaks.step_unrelated (hspeaks : task.Speaks version) (outcome : Except String Unit)
    {event : Event} (hevent : event.Unrelated) :
    ∃ sent, task.step outcome event = ({ task with sent := sent }, true) := by
  have hsend (message : Message) : ∃ sent, ((task.sendRaw outcome message).1, true) =
      (({ task with sent := sent } : SessionTask), true) := by
    obtain ⟨sent, hsent⟩ := task.exists_sendRaw_fst outcome message
    exact ⟨sent, by rw [hsent]⟩
  cases event with
  | request request =>
      cases request with
      | get kind request responseTx => exact hevent.elim
      | send id payload =>
          rw [step, handleRequest, hspeaks.sendEth_eq]
          exact hsend _
      | ping => exact hsend _
      | disconnect payload => exact hevent.elim
  | tick => exact hsend _
  | message message =>
      obtain ⟨id, payload⟩ := message
      obtain ⟨hdisconnect, hresponse⟩ := hevent
      rw [step, handleMessage]
      split
      · unfold handleP2pMessage
        split
        next heq => exact absurd (UInt8.toNat_inj.mp heq) hdisconnect
        next => exact hsend _
        next => exact ⟨task.sent, rfl⟩
      · refine ⟨task.sent, ?_⟩
        rw [task.handleEthMessage_of_forall_ne]
        intro kind hdecode
        apply hresponse kind
        rw [← hdecode, EthMessageId.toU8_decode, hspeaks.offset, UInt8.sub_add_cancel]

/-- A response is handed over or leaves the task alone. -/
theorem handleResponse_cases (task : SessionTask) (kind : Kind) (payload : Bytes) :
    task.handleResponse kind payload = task ∨
      ∃ response responseTx, task.decodeResponse kind payload = some response ∧
        (task.pending kind).get response.requestId = some responseTx ∧
        task.handleResponse kind payload =
          (task.setPending kind ((task.pending kind).erase response.requestId)).deliver
            responseTx (.ok ⟨kind, response⟩) := by
  unfold handleResponse
  split
  next => exact .inl rfl
  next response hdecode =>
      split
      next => exact .inl rfl
      next responseTx hget => exact .inr ⟨response, responseTx, hdecode, hget, rfl⟩

theorem Speaks.respond (hspeaks : task.Speaks version) (kind : Kind) (payload : Bytes) :
    (task.respond version kind payload).Speaks version := by
  unfold SessionTask.respond
  split
  next => exact hspeaks
  next =>
      obtain heq | ⟨response, responseTx, -, -, heq⟩ := task.handleResponse_cases kind payload
      · rw [heq]
        exact hspeaks
      · rw [heq]
        exact (hspeaks.setPending _ _).deliver _ _

theorem get_pending_setPending (task : SessionTask) (kind other : Kind)
    (table : Table UInt64 ResponseTx) (id : UInt64) :
    ((task.setPending kind table).pending other).get id =
      if other = kind then table.get id else (task.pending other).get id := by
  unfold setPending
  dsimp only
  by_cases hother : other = kind
  · subst hother
    rw [Function.update_self, if_pos rfl]
  · rw [Function.update_of_ne hother, if_neg hother]

theorem run_cons_of_step {outcome : Except String Unit} {event : Event} {next : SessionTask}
    (hstep : task.step outcome event = (next, true))
    (events : List (Except String Unit × Event)) :
    task.run ((outcome, event) :: events) = next.run events := by
  rw [run, hstep]

end SessionTask

/-! ## Exchanges that go well -/

/-- The tables hold the requests that are open. -/
def Tracks (task : SessionTask) (waiting : List Asked) : Prop :=
  ∀ kind id responseTx, (task.pending kind).get id = some responseTx ↔
    ∃ asked ∈ waiting, asked.kind = kind ∧ asked.id = id ∧ asked.responseTx = responseTx

namespace Tracks

variable {task : SessionTask} {waiting : List Asked}

theorem ask (htracks : Tracks task waiting) {asked : Asked}
    (hfresh : ∀ other ∈ waiting, other.id ≠ asked.id) (sent : List Message) :
    Tracks (({ task with sent := sent } : SessionTask).setPending asked.kind
      ((task.pending asked.kind).insert asked.id asked.responseTx)) (waiting ++ [asked]) := by
  intro kind id responseTx
  rw [get_pending_setPending]
  simp only [List.mem_append, List.mem_singleton, or_and_right, exists_or, exists_eq_left]
  rw [← htracks kind id responseTx]
  by_cases hkind : kind = asked.kind
  · subst hkind
    rw [if_pos rfl, Table.get_insert]
    by_cases hid : id = asked.id
    · subst hid
      have hnone : (task.pending asked.kind).get asked.id ≠ some responseTx := by
        intro hget
        obtain ⟨other, hother, -, hid, -⟩ := (htracks _ _ _).mp hget
        exact hfresh other hother hid
      simp [hnone]
    · simp [hid, Ne.symm hid]
  · simp [hkind, Ne.symm hkind]

theorem answer (htracks : Tracks task waiting) {asked : Asked}
    (hids : (waiting.map (·.id)).Nodup) (hasked : asked ∈ waiting) :
    Tracks (task.setPending asked.kind ((task.pending asked.kind).erase asked.id))
      (waiting.erase asked) := by
  intro kind id responseTx
  rw [get_pending_setPending, Table.get_erase]
  simp only [hids.of_map.mem_erase_iff]
  by_cases hid : id = asked.id
  · subst hid
    have hunique (other : Asked) (hother : other ∈ waiting) (hid : other.id = asked.id) :
        other = asked := List.inj_on_of_nodup_map hids hother hasked hid
    constructor
    · intro hget
      exfalso
      split at hget
      next => simp at hget
      next hkind =>
          obtain ⟨other, hother, hotherKind, hotherId, -⟩ := (htracks _ _ _).mp hget
          exact hkind (hunique other hother hotherId ▸ hotherKind).symm
    · rintro ⟨other, ⟨hne, hother⟩, -, hotherId, -⟩
      exact absurd (hunique other hother hotherId) hne
  · rw [if_neg hid]
    have hget : (if kind = asked.kind then (task.pending asked.kind).get id
        else (task.pending kind).get id) = (task.pending kind).get id := by
      split
      next hkind => rw [hkind]
      next => rfl
    rw [hget, htracks]
    constructor
    · rintro ⟨other, hother, hkind, hotherId, htx⟩
      exact ⟨other, ⟨fun heq => hid (heq ▸ hotherId).symm, hother⟩, hkind, hotherId, htx⟩
    · rintro ⟨other, ⟨-, hother⟩, hrest⟩
      exact ⟨other, hother, hrest⟩

end Tracks

/-- The delivery that an act ought to lead to. -/
def Act.delivery : Act → Option Delivery
  | .fail asked error => some ⟨asked.responseTx, .error error⟩
  | .answer asked response => some ⟨asked.responseTx, .ok ⟨asked.kind, asked.id, response⟩⟩
  | _ => none

variable {version : EthVersion} {task : SessionTask}

/-- Every waiter that is kept or served has asked, under the id in question. -/
structure Sound (version : EthVersion) (past : List Asked) (task : SessionTask) : Prop where
  pending : ∀ kind id responseTx, (task.pending kind).get id = some responseTx →
    ∃ asked ∈ past, asked.kind = kind ∧ asked.id = id ∧ asked.responseTx = responseTx
  delivered : ∀ delivery ∈ task.delivered, ∀ response, delivery.result = .ok response →
    Permits version response.1 response.2.requestId ∧
      ∃ asked ∈ past, asked.kind = response.1 ∧ asked.id = response.2.requestId ∧
        asked.responseTx = delivery.responseTx

theorem requestId_of_decodeResponse {kind : Kind} {payload : Bytes}
    {response : RequestPair (Response kind)} (hrequestId : task.hasRequestId = false)
    (hdecode : task.decodeResponse kind payload = some response) : response.requestId = 0 := by
  unfold decodeResponse at hdecode
  rw [hrequestId, if_neg Bool.false_ne_true] at hdecode
  split at hdecode
  next => simp at hdecode
  next =>
      obtain rfl := Option.some.inj hdecode
      rfl

namespace Sound

variable {past : List Asked}

theorem new (version : EthVersion) : Sound version [] (.new (negotiated version)) where
  pending _ _ _ hget := by simp [SessionTask.new] at hget
  delivered delivery hmem := by simp [SessionTask.new] at hmem

theorem mono (hsound : Sound version past task) (more : List Asked) :
    Sound version (past ++ more) task where
  pending kind id responseTx hget := by
    obtain ⟨asked, hasked, hrest⟩ := hsound.pending kind id responseTx hget
    exact ⟨asked, List.mem_append_left _ hasked, hrest⟩
  delivered delivery hmem response hresult := by
    obtain ⟨hpermits, asked, hasked, hrest⟩ := hsound.delivered delivery hmem response hresult
    exact ⟨hpermits, asked, List.mem_append_left _ hasked, hrest⟩

theorem ask (hsound : Sound version past task) (asked : Asked) (sent : List Message) :
    Sound version (past ++ [asked])
      (({ task with sent := sent } : SessionTask).setPending asked.kind
        ((task.pending asked.kind).insert asked.id asked.responseTx)) where
  pending kind id responseTx hget := by
    rw [get_pending_setPending, Table.get_insert] at hget
    split at hget
    next hkind =>
        split at hget
        next hid => exact ⟨asked, by simp, hkind.symm, hid.symm, Option.some.inj hget⟩
        next => exact (hsound.mono [asked]).pending kind id responseTx (hkind ▸ hget)
    next => exact (hsound.mono [asked]).pending kind id responseTx hget
  delivered := (hsound.mono [asked]).delivered

theorem fail (hsound : Sound version past task) (responseTx : ResponseTx) (error : String) :
    Sound version past (task.deliver responseTx (.error error)) where
  pending := hsound.pending
  delivered delivery hmem response hresult := by
    rcases List.mem_append.mp hmem with hmem | hmem
    · exact hsound.delivered delivery hmem response hresult
    · rw [List.mem_singleton.mp hmem] at hresult
      simp at hresult

theorem respond (hsound : Sound version past task) (hspeaks : task.Speaks version) (kind : Kind)
    (payload : Bytes) : Sound version past (task.respond version kind payload) := by
  unfold SessionTask.respond
  split
  next => exact hsound
  next hsupported =>
      obtain heq | ⟨response, responseTx, hdecode, hget, heq⟩ :=
        task.handleResponse_cases kind payload
      · rw [heq]
        exact hsound
      · rw [heq]
        refine ⟨fun kind' id responseTx' hget' => ?_, fun delivery hmem response' hresult => ?_⟩
        · have hget' : ((task.setPending kind ((task.pending kind).erase
              response.requestId)).pending kind').get id = some responseTx' := hget'
          rw [get_pending_setPending, Table.get_erase] at hget'
          split at hget'
          next hkind =>
              split at hget'
              next => simp at hget'
              next => exact hsound.pending kind' id responseTx' (hkind ▸ hget')
          next => exact hsound.pending kind' id responseTx' hget'
        · rcases List.mem_append.mp hmem with hmem | hmem
          · exact hsound.delivered delivery hmem response' hresult
          · rw [List.mem_singleton.mp hmem] at hresult ⊢
            obtain rfl := Except.ok.inj hresult
            refine ⟨⟨fun hversion => ?_, fun hkind => ?_⟩, hsound.pending kind _ responseTx hget⟩
            · exact requestId_of_decodeResponse (hspeaks.hasRequestId_eq.trans hversion) hdecode
            · by_contra hsupports
              exact hsupported ⟨hkind, Bool.eq_false_iff.mpr hsupports⟩

end Sound

theorem sound_run {acts : List Act} {past waiting : List Asked} (hspeaks : task.Speaks version)
    (hsound : Sound version past task) (hanswers : Answers version waiting acts) :
    Sound version (past ++ acts.filterMap Act.asked?)
      (task.run (acts.map (Act.event version))) := by
  induction acts generalizing task past waiting with
  | nil => simpa [run] using hsound
  | cons act acts ih =>
      cases act with
      | ask asked =>
          obtain ⟨sent, hstep⟩ := hspeaks.step_ask asked.kind asked.request asked.responseTx
          rw [List.map_cons, Act.event, run_cons_of_step hstep]
          simpa [Act.asked?] using
            ih ((hspeaks.withSent sent).setPending _ _) (hsound.ask asked sent) hanswers
      | fail asked error =>
          rw [List.map_cons, Act.event, run_cons_of_step (hspeaks.step_fail _ _ _ _)]
          simpa [Act.asked?] using ih (hspeaks.deliver _ _)
            ((hsound.fail asked.responseTx error).mono [asked]) hanswers
      | answer asked response =>
          rw [List.map_cons, Act.event, run_cons_of_step (hspeaks.step_answer _ _ _)]
          exact ih (hspeaks.respond _ _) (hsound.respond hspeaks _ _) hanswers.2.2.2
      | other outcome event =>
          obtain ⟨sent, hstep⟩ := hspeaks.step_unrelated outcome hanswers.1
          rw [List.map_cons, Act.event, run_cons_of_step hstep]
          exact ih (hspeaks.withSent sent) ⟨hsound.pending, hsound.delivered⟩
            hanswers.2

/-! ## Which exchanges go well -/

end Exchanges

/-! ## Two exchanges -/

/-- Items that are byte strings, as those of node data are. -/
@[reducible]
def byteItems : EthItems where
  Item _ := Bytes
  encodeItem _ := Rlp.encodeBytes
  decodeItem _ := Rlp.Header.decodeBytes false
  encodeItem_ne_nil _ item := by
    rw [← List.length_pos_iff, Rlp.length_encodeBytes]
    exact Rlp.bytesLength_pos item
  decodeItem_encodeItem _ item rest hlt := by
    refine Rlp.decodeBytes_string item (Nat.lt_of_le_of_lt ?_ hlt) rest
    rw [Rlp.length_encodeBytes]
    exact Rlp.length_le_bytesLength item

attribute [local instance] byteItems

end WasixEth.P2p
