/-
# Messages in flight (`MQTTClient.c`, `MQTTProtocolClient.c`, `utf-8.c`)

What the client library does with a message that is published: `MQTTClient_publishMessage`
and the layers below it, down to the list of messages in flight, and
`MQTTClient_waitForCompletion`, which looks a delivery token up in that list.

A thread works on the session under a mutex and gives it up where it waits.  Each time it
has the mutex again it finds what the other threads made of the session in the meantime;
this and the rest that is not up to the library, the socket, the clock and the allocator,
are choices of the environment (`Moment`, `Sending`).  The loops take one moment a round.

`publishMessage_wrote` says all that a publish can do to the delivery token.
-/
import DataLogger.MqttLibrary

/-! ## Constants -/

/-- `MQTTCLIENT_MAX_MESSAGES_INFLIGHT`. -/
def mqttClientMaxMessagesInflight : CInt := -4

/-- `MQTTCLIENT_BAD_UTF8_STRING`. -/
def mqttClientBadUtf8String : CInt := -5

/-- `MQTTCLIENT_WRONG_MQTT_VERSION`. -/
def mqttClientWrongMqttVersion : CInt := -16

/-- `MQTTVERSION_5`. -/
def mqttVersion5 : CInt := 5

/-- `TCPSOCKET_INTERRUPTED`. -/
def tcpsocketInterrupted : CInt := -22

/-- `SOCKET_ERROR`. -/
def socketError : CInt := -1

/-- `PAHO_MEMORY_ERROR`. -/
def pahoMemoryError : CInt := -99

/-- `MAX_MSG_ID`. -/
def maxMsgId : CInt := 65535

/-! ## Topics (`utf-8.c`) -/

/-- `valid_ranges`: the ranges of the bytes of a character. -/
def validRanges : List (List (UInt8 × UInt8)) :=
  [[(0x00, 0x7F)],
    [(0xC2, 0xDF), (0x80, 0xBF)],
    [(0xE0, 0xE0), (0xA0, 0xBF), (0x80, 0xBF)],
    [(0xE1, 0xEC), (0x80, 0xBF), (0x80, 0xBF)],
    [(0xED, 0xED), (0x80, 0x9F), (0x80, 0xBF)],
    [(0xEE, 0xEF), (0x80, 0xBF), (0x80, 0xBF)],
    [(0xF0, 0xF0), (0x90, 0xBF), (0x80, 0xBF), (0x80, 0xBF)],
    [(0xF1, 0xF3), (0x80, 0xBF), (0x80, 0xBF), (0x80, 0xBF)],
    [(0xF4, 0xF4), (0x80, 0x8F), (0x80, 0xBF), (0x80, 0xBF)]]

/-- The number of bytes of the character that starts with the byte `b`. -/
def charLen (b : UInt8) : ℕ :=
  if b &&& 128 = 0 then 1
  else if b &&& 0xF0 = 0xF0 then 4
  else if b &&& 0xE0 = 0xE0 then 3
  else 2

/-- `UTF8_char_validate`: the string after its first character, if that is valid and within
the first `len` bytes. -/
def utf8CharValidate (len : ℤ) (data : CString) : Option CString :=
  let charlen := charLen (data.headD 0)
  if len < charlen then none
  else
    let good := validRanges.any fun row =>
      row.length = charlen ∧ (row.zip data).all fun x => x.1.1 ≤ x.2 ∧ x.2 ≤ x.1.2
    if good then some (data.drop charlen) else none

/-- The loop of `UTF8_validate`.  A round takes at least one byte, so the number of bytes is
fuel enough. -/
def utf8ValidateLoop : ℕ → ℤ → CString → Bool
  | 0, _, _ => false
  | fuel + 1, len, data =>
      match utf8CharValidate len data with
      | none => false
      | some rest =>
          let len := len - (data.length - rest.length)
          if 0 < len then utf8ValidateLoop fuel len rest else true

/-- `UTF8_validate`. -/
def utf8Validate (len : CInt) (data : CString) : Bool :=
  if len = 0 then true else utf8ValidateLoop data.length len.toInt data

/-- `UTF8_validateString`. -/
def utf8ValidateString (string : CString) : Bool := utf8Validate (strlen string).toCInt string

/-! ## Sessions (`Clients.h`) -/

/-- `Publish`: a packet that is about to be sent. -/
structure Publish where
  topic : CString
  payload : CString
  payloadlen : CInt
  msgId : CInt
  deriving DecidableEq, Repr

/-- `Messages`: a message that is in flight, with its publication. -/
structure Messages where
  qos : CInt
  retain : CInt
  msgid : CInt
  topic : CString
  payload : CString
  payloadlen : CInt
  deriving DecidableEq, Repr

/-- The fields of `Clients` that the delivery of outbound messages depends on. -/
structure Session where
  cleansession : Bool
  connected : Bool
  msgID : CInt
  maxInflightMessages : CInt
  outboundMsgs : List Messages
  mqttVersion : CInt
  deriving DecidableEq, Repr

/-- What a thread finds when it has the mutex again: what the other threads made of the
session, whether the socket is free (`Socket_noPendingWrites`), whether a packet is still
being written (`SocketBuffer_getWrite`), and the time since it started. -/
structure Moment where
  others : Session → Session
  noPendingWrites : Bool
  writing : Bool
  elapsed : CULong

/-- The environment of one publish: which of its allocations succeed, and what
`MQTTPacket_send_publish` returns. -/
structure Sending where
  publish : Bool
  payload : Bool
  topic : Bool
  message : Bool
  publication : Bool
  outbound : Bool
  sent : CInt

/-- Why a function does not return. -/
inductive SessionFault
  /-- It still waits when the moments are used up. -/
  | blocked
  /-- It follows the pointer to a message that could not be allocated, or was freed. -/
  | unallocated
  deriving DecidableEq, Repr

namespace Session

/-! ## Publishing -/

/-- Find a message in flight by its id (`ListFindItem` with `messageIDCompare`). -/
def findMessage (s : Session) (msgid : CInt) : Option Messages :=
  s.outboundMsgs.find? fun m => m.msgid = msgid

/-- The id after `msgid`. -/
def nextMsgId (msgid : CInt) : CInt := if msgid = maxMsgId then 1 else msgid + 1

/-- The loop of `MQTTProtocol_assignMsgId`. -/
def assignMsgIdLoop (s : Session) (startMsgid : CInt) : ℕ → CInt → Option CInt
  | 0, _ => none
  | fuel + 1, msgid =>
      if s.findMessage msgid ≠ none then
        let msgid := nextMsgId msgid
        if msgid = startMsgid then some 0 else s.assignMsgIdLoop startMsgid fuel msgid
      else some msgid

/-- `MQTTProtocol_assignMsgId`: an id that no message in flight has, or 0.  After `2 ^ 32`
rounds the search has met an id twice, and goes on for ever. -/
def assignMsgId (s : Session) : Option (CInt × Session) :=
  (s.assignMsgIdLoop s.msgID (2 ^ 32) (nextMsgId s.msgID)).map fun msgid =>
    (msgid, if msgid ≠ 0 then { s with msgID := msgid } else s)

/-- `MQTTProtocol_createMessage`; `none` when an allocation fails. -/
def createMessage (p : Publish) (qos retained : CInt) (env : Sending) : Option Messages :=
  if env.message ∧ env.publication then
    some ⟨qos, retained, p.msgId, p.topic, p.payload, p.payloadlen⟩
  else none

/-- `MQTTProtocol_startPublish`: the session, the code, and the message if there is one. -/
def startPublish (p : Publish) (qos retained : CInt) (env : Sending) (s : Session) :
    Except SessionFault (Session × CInt × Option Messages) :=
  if 0 < qos.toInt then
    match createMessage p qos retained env with
    | none => .error .unallocated
    | some msg =>
        -- the outcome of `ListAppend` is not tested
        let s := if env.outbound then { s with outboundMsgs := s.outboundMsgs ++ [msg] } else s
        .ok (s, env.sent, some msg)
  else .ok (s, env.sent, none)

/-- `if (deliveryToken && qos > 0) *deliveryToken = msg->msgid`: what is written.  A message
is freed when it is taken off the list of those in flight, which can happen during the wait for the
rest of a partial write.  To read it then is a fault here; the source goes on to return success,
and what it writes to the token is whatever the freed memory holds. -/
def writeToken (env : Sending) (qos : CInt) (s : Session) :
    Option Messages → Except SessionFault (Option CInt)
  | none => if 0 < qos.toInt then .error .unallocated else .ok none
  | some msg =>
      if 0 < qos.toInt then
        if env.outbound = true ∧ msg ∉ s.outboundMsgs then .error .unallocated
        else .ok (some msg.msgid)
      else .ok none

/-- `MQTTClient_closeSession`, which `MQTTClient_disconnect_internal` comes to at once with the
timeout 0. -/
def closeSession (s : Session) : Session :=
  let s := { s with connected := false }
  if s.mqttVersion.toInt < mqttVersion5.toInt ∧ s.cleansession then
    { s with outboundMsgs := [], msgID := 0 }
  else s

/-- The loop of `MQTTClient_publish5` that waits until the queue and the socket have room.
The flag is false when the connection is lost. -/
def waitForRoom : Moment → List Moment → Session →
    Except SessionFault (Bool × Moment × List Moment × Session)
  | m, moments, s =>
      if s.maxInflightMessages.toInt ≤ s.outboundMsgs.length ∨ m.noPendingWrites = false then
        match moments with
        | [] => .error .blocked
        | m :: moments =>
            let s := m.others s
            if s.connected = false then .ok (false, m, moments, s) else waitForRoom m moments s
      else .ok (true, m, moments, s)

/-- The loop of `MQTTClient_publish5` that waits until a packet is written. -/
def waitForWrite : Moment → List Moment → Session → Except SessionFault Session
  | m, moments, s =>
      if s.connected ∧ m.writing then
        match moments with
        | [] => .error .blocked
        | m :: moments => waitForWrite m moments (m.others s)
      else .ok s

/-- The code of the packet, once it is written. -/
def finishWrite (qos : CInt) (m : Moment) (moments : List Moment) (s : Session) (rc : CInt) :
    Except SessionFault (Session × CInt) :=
  if rc = tcpsocketInterrupted then
    (waitForWrite m moments s).map fun s =>
      (s, if 0 < qos.toInt ∨ s.connected then mqttClientSuccess else mqttClientFailure)
  else .ok (s, rc)

/-- `MQTTClient_publish5` from where the packet is complete: send it, and write the delivery
token.  The last component is what was written. -/
def sendPublish (p : Publish) (qos retained : CInt) (env : Sending) (m : Moment)
    (moments : List Moment) (s : Session) : Except SessionFault (Session × CInt × Option CInt) := do
  let (s, rc, msg) ← startPublish p qos retained env s
  let (s, rc) ← finishWrite qos m moments s rc
  let token ← writeToken env qos s msg
  if rc = socketError then
    return (s.closeSession, if 0 < qos.toInt then mqttClientSuccess else mqttClientFailure, token)
  else
    return (s, rc, token)

/-- `MQTTClient_publish5` from where there is room: assign an id, and build the packet. -/
def buildPublish (topicName : CString) (payloadlen : CInt) (payload : CString) (qos retained : CInt)
    (env : Sending) (m : Moment) (moments : List Moment) (s : Session) :
    Except SessionFault (Session × CInt × Option CInt) :=
  match if 0 < qos.toInt then s.assignMsgId else some (0, s) with
  | none => .error .blocked
  | some (msgid, s) =>
      if 0 < qos.toInt ∧ msgid = 0 then .ok (s, mqttClientMaxMessagesInflight, none)
      else if env.publish = false ∨ (0 < payloadlen.toInt ∧ env.payload = false) ∨
        env.topic = false then
        .ok (s, pahoMemoryError, none)
      else
        let payload := if 0 < payloadlen.toInt then payload.take payloadlen.toNat else []
        sendPublish ⟨topicName, payload, payloadlen, msgid⟩ qos retained env m moments s

/-- `MQTTClient_publish5`, on a client that is not `NULL`: the session, the return code, and
what was written to the delivery token. -/
def publish5 (topicName : CString) (payloadlen : CInt) (payload : CString) (qos retained : CInt)
    (env : Sending) : List Moment → Session → Except SessionFault (Session × CInt × Option CInt)
  | [], _ => .error .blocked
  | m :: moments, s => do
      let s := m.others s
      if s.connected = false then
        return (s, mqttClientDisconnected, none)
      else if utf8ValidateString topicName = false then
        return (s, mqttClientBadUtf8String, none)
      else
        let (ready, m, moments, s) ← waitForRoom m moments s
        if ready then
          buildPublish topicName payloadlen payload qos retained env m moments s
        else
          return (s, mqttClientFailure, none)

/-- `MQTTClient_publishMessage5`. -/
def publishMessage5 (topicName : CString) (message : Message) (env : Sending)
    (moments : List Moment)
    (s : Session) : Except SessionFault (Session × CInt × Option CInt) :=
  publish5 topicName message.payloadlen message.payload message.qos message.retained env moments s

/-- `MQTTClient_publishMessage`.  The version is read without the mutex. -/
def publishMessage (topicName : CString) (message : Message) (env : Sending) (moments : List Moment)
    (s : Session) : Except SessionFault (Session × CInt × Option CInt) :=
  if mqttVersion5.toInt ≤ s.mqttVersion.toInt then .ok (s, mqttClientWrongMqttVersion, none)
  else publishMessage5 topicName message env moments s

/-! ## Waiting -/

/-- `MQTTClient_waitForCompletion`, on a client that is not `NULL`: the session, the return
code, and what each look at the messages in flight found. -/
def waitForCompletion (mdt : CInt) (timeout : CULong) :
    List Moment → Session → Except SessionFault (Session × CInt × List (Option Messages))
  | [], _ => .error .blocked
  | m :: moments, s =>
      let s := m.others s
      if m.elapsed < timeout then
        if s.connected = false then .ok (s, mqttClientDisconnected, [])
        else
          match s.findMessage mdt with
          | none => .ok (s, mqttClientSuccess, [none])
          | some msg =>
              (waitForCompletion mdt timeout moments s).map fun (s, rc, looks) =>
                (s, rc, some msg :: looks)
      else .ok (s, mqttClientFailure, [])

/-! ## What a publish writes

One lemma per layer, up to `publishMessage_wrote`. -/

section Written

variable {s s' : Session} {env : Sending} {m : Moment} {moments : List Moment} {rc : CInt}
  {written : Option CInt} {topicName : CString} {qos retained : CInt}

/-- The message has the topic and the quality of service of the call, and an id that no
message in flight has in the session `s`. -/
structure IsOwn (s : Session) (topicName : CString) (qos : CInt) (msg : Messages) : Prop where
  topic : msg.topic = topicName
  qos : msg.qos = qos
  free : ∀ m ∈ s.outboundMsgs, m.msgid ≠ msg.msgid

/-- The id that is found is free. -/
theorem assignMsgIdLoop_free {startMsgid msgid msgid' : CInt} {fuel : ℕ}
    (h : s.assignMsgIdLoop startMsgid fuel msgid = some msgid') (hne : msgid' ≠ 0) :
    ∀ m ∈ s.outboundMsgs, m.msgid ≠ msgid' := by
  induction fuel generalizing msgid with
  | zero => cases h
  | succ fuel ih =>
      unfold assignMsgIdLoop at h
      by_cases hfound : s.findMessage msgid = none
      · rw [if_neg (not_not_intro hfound), Option.some.injEq] at h
        subst h
        intro m hm
        simpa using List.find?_eq_none.mp hfound m hm
      · rw [if_pos hfound] at h
        dsimp only at h
        split_ifs at h
        · cases h
          exact absurd rfl hne
        · exact ih h

/-- An id that was assigned is free, and nothing but the counter changes. -/
theorem assignMsgId_free {msgid : CInt} (h : s.assignMsgId = some (msgid, s')) (hne : msgid ≠ 0) :
    s' = { s with msgID := msgid } ∧ ∀ m ∈ s.outboundMsgs, m.msgid ≠ msgid := by
  unfold assignMsgId at h
  obtain ⟨msgid', hloop, heq⟩ := Option.map_eq_some_iff.mp h
  cases heq
  exact ⟨if_pos hne, assignMsgIdLoop_free hloop hne⟩

/-- With `qos > 0` the message that is put in flight is the publication. -/
theorem startPublish_msg {p : Publish} {msg : Option Messages}
    (h : startPublish p qos retained env s = .ok (s', rc, msg)) (hqos : 0 < qos.toInt) :
    msg = some ⟨qos, retained, p.msgId, p.topic, p.payload, p.payloadlen⟩ := by
  unfold startPublish createMessage at h
  rw [if_pos hqos] at h
  split_ifs at h
  all_goals
    cases h
    rfl

/-- Nothing is written for `qos ≤ 0`, and the id of the message otherwise. -/
theorem writeToken_eq {msg : Option Messages} (h : writeToken env qos s msg = .ok written) :
    written = if 0 < qos.toInt then msg.map Messages.msgid else none := by
  by_cases hqos : 0 < qos.toInt
  · rcases msg with _ | msg
    · simp only [writeToken, if_pos hqos] at h
      cases h
    · simp only [writeToken, if_pos hqos] at h
      by_cases hfreed : env.outbound = true ∧ msg ∉ s.outboundMsgs
      · rw [if_pos hfreed] at h
        cases h
      · rw [if_neg hfreed] at h
        cases h
        rw [if_pos hqos]
        rfl
  · rcases msg with _ | msg
    all_goals
      simp only [writeToken, if_neg hqos] at h
      cases h
      rw [if_neg hqos]

/-- Sending a packet writes the id of the packet, for `qos > 0`, or nothing. -/
theorem sendPublish_written {p : Publish}
    (h : sendPublish p qos retained env m moments s = .ok (s', rc, written)) :
    written = if 0 < qos.toInt then some p.msgId else none := by
  unfold sendPublish at h
  obtain ⟨⟨s₁, rc₁, msg⟩, hstart, h⟩ := Except.exists_of_bind h
  obtain ⟨⟨s₂, rc₂⟩, -, h⟩ := Except.exists_of_bind h
  obtain ⟨token, htoken, h⟩ := Except.exists_of_bind h
  have hwritten : written = token := by
    split_ifs at h
    all_goals
      cases h
      rfl
  rw [hwritten, writeToken_eq htoken]
  by_cases hqos : 0 < qos.toInt
  · rw [startPublish_msg hstart hqos]
    rfl
  · rw [if_neg hqos, if_neg hqos]

/-- What a publish that finds room in the session `s` can do to the delivery token: it writes
nothing, and then it fails or has `qos ≤ 0`, or it writes the id of a message of its own. -/
inductive Wrote (s : Session) (topicName : CString) (qos rc : CInt) : Option CInt → Prop
  | nothing (h : 0 < qos.toInt → rc ≠ mqttClientSuccess) : Wrote s topicName qos rc none
  | own (msg : Messages) (hqos : 0 < qos.toInt) (own : IsOwn s topicName qos msg) :
      Wrote s topicName qos rc (some msg.msgid)

/-- What a thread finds after the moments `seen`. -/
def found (seen : List Moment) (s : Session) : Session := seen.foldl (fun s m => m.others s) s

/-- While it waits for room, a thread leaves the session as it finds it. -/
theorem waitForRoom_found {m' : Moment} {moments' : List Moment} {ready : Bool}
    (h : waitForRoom m moments s = .ok (ready, m', moments', s')) :
    ∃ seen, moments = seen ++ moments' ∧ s' = found seen s := by
  induction moments generalizing m s with
  | nil =>
      unfold waitForRoom at h
      split_ifs at h
      all_goals cases h
      exact ⟨[], rfl, rfl⟩
  | cons next moments ih =>
      unfold waitForRoom at h
      split_ifs at h with hfull
      · dsimp only at h
        split_ifs at h with hlost
        · cases h
          exact ⟨[m'], rfl, rfl⟩
        · obtain ⟨seen, rfl, hs⟩ := ih h
          exact ⟨next :: seen, rfl, hs⟩
      · cases h
        exact ⟨[], rfl, rfl⟩

/-- What a publish that finds room can write. -/
theorem buildPublish_wrote {payloadlen : CInt} {payload : CString}
    (h : buildPublish topicName payloadlen payload qos retained env m moments s =
      .ok (s', rc, written)) :
    Wrote s topicName qos rc written := by
  unfold buildPublish at h
  rcases hassign : (if 0 < qos.toInt then s.assignMsgId else some (0, s)) with _ | ⟨msgid, s₁⟩
  · rw [hassign] at h
    cases h
  · rw [hassign] at h
    dsimp only at h
    by_cases hzero : 0 < qos.toInt ∧ msgid = 0
    · rw [if_pos hzero] at h
      cases h
      exact .nothing fun _ => by decide
    · rw [if_neg hzero] at h
      by_cases halloc :
          env.publish = false ∨ (0 < payloadlen.toInt ∧ env.payload = false) ∨ env.topic = false
      · rw [if_pos halloc] at h
        cases h
        exact .nothing fun _ => by decide
      · rw [if_neg halloc] at h
        rw [sendPublish_written h]
        by_cases hqos : 0 < qos.toInt
        · rw [if_pos hqos] at hassign ⊢
          have hne : msgid ≠ 0 := fun hid => hzero ⟨hqos, hid⟩
          obtain ⟨-, hfree⟩ := assignMsgId_free hassign hne
          exact .own ⟨qos, retained, msgid, topicName, payload, payloadlen⟩ hqos ⟨rfl, rfl, hfree⟩
        · rw [if_neg hqos]
          exact .nothing fun h => absurd h hqos

/-- What a publish can write, once it has waited for room. -/
theorem publish5_wrote {payloadlen : CInt} {payload : CString}
    (h : publish5 topicName payloadlen payload qos retained env moments s = .ok (s', rc, written)) :
    ∃ seen, seen <+: moments ∧ Wrote (found seen s) topicName qos rc written := by
  rcases moments with _ | ⟨m, moments⟩
  · cases h
  · unfold publish5 at h
    dsimp only at h
    split_ifs at h with hconnected hutf8
    · cases h
      exact ⟨[], List.nil_prefix, .nothing fun _ => by decide⟩
    · cases h
      exact ⟨[], List.nil_prefix, .nothing fun _ => by decide⟩
    · obtain ⟨⟨ready, m₁, moments₁, s₁⟩, hwait, h⟩ := Except.exists_of_bind h
      obtain ⟨seen, rfl, rfl⟩ := waitForRoom_found hwait
      have hprefix : m :: seen <+: m :: (seen ++ moments₁) := ⟨moments₁, rfl⟩
      dsimp only at h
      split_ifs at h
      · exact ⟨m :: seen, hprefix, buildPublish_wrote h⟩
      · cases h
        exact ⟨m :: seen, hprefix, .nothing fun _ => by decide⟩

/-- **What a publish writes.**  For `qos > 0` the token of a publish that succeeds is the id
of its own message, and no message that it found in flight has that id. -/
theorem publishMessage_wrote {message : Message}
    (h : publishMessage topicName message env moments s = .ok (s', rc, written)) :
    ∃ seen, seen <+: moments ∧ Wrote (found seen s) topicName message.qos rc written := by
  unfold publishMessage at h
  split_ifs at h with hversion
  · cases h
    exact ⟨[], List.nil_prefix, .nothing fun _ => by decide⟩
  · exact publish5_wrote h

/-- A topic that is not UTF-8 is not published. -/
theorem publishMessage_rejected {message : Message} (hutf8 : utf8ValidateString topicName = false)
    (h : publishMessage topicName message env moments s = .ok (s', rc, written)) :
    rc ≠ mqttClientSuccess := by
  unfold publishMessage publishMessage5 at h
  split_ifs at h with hversion
  · cases h
    decide
  · rcases moments with _ | ⟨m, moments⟩
    · cases h
    · simp only [publish5, hutf8, if_true] at h
      split_ifs at h
      all_goals
        cases h
        decide

/-- With `qos ≤ 0` the packet is sent, and nothing is written. -/
theorem sendPublish_unwritten (p : Publish) (hqos : ¬ 0 < qos.toInt)
    (hsent : env.sent = mqttClientSuccess) :
    sendPublish p qos retained env m moments s = .ok (s, mqttClientSuccess, none) := by
  unfold sendPublish startPublish
  rw [if_neg hqos, hsent]
  show (writeToken env qos s none).bind _ = _
  rw [writeToken, if_neg hqos]
  rfl

/-- With `qos ≤ 0` the publication is built and sent, and nothing is written. -/
theorem buildPublish_unwritten (payloadlen : CInt) (payload : CString) (hqos : ¬ 0 < qos.toInt)
    (halloc : env.publish = true ∧ env.payload = true ∧ env.topic = true)
    (hsent : env.sent = mqttClientSuccess) :
    buildPublish topicName payloadlen payload qos retained env m moments s =
      .ok (s, mqttClientSuccess, none) := by
  obtain ⟨hpublish, hpayload, htopic⟩ := halloc
  unfold buildPublish
  rw [if_neg hqos]
  dsimp only
  rw [if_neg fun h => hqos h.1, if_neg (by simp [hpublish, hpayload, htopic])]
  exact sendPublish_unwritten _ hqos hsent

/-- With `qos ≤ 0` a topic that is UTF-8 is published, and nothing is written, when nothing is
in the way. -/
theorem publishMessage_unwritten {message : Message} (hqos : ¬ 0 < message.qos.toInt)
    (hutf8 : utf8ValidateString topicName = true) (hversion : s.mqttVersion = 4)
    (hconnected : (m.others s).connected = true)
    (hroom : (m.others s).outboundMsgs.length < (m.others s).maxInflightMessages.toInt)
    (hwrites : m.noPendingWrites = true)
    (halloc : env.publish = true ∧ env.payload = true ∧ env.topic = true)
    (hsent : env.sent = mqttClientSuccess) :
    publishMessage topicName message env (m :: moments) s =
      .ok (m.others s, mqttClientSuccess, none) := by
  have hwait : waitForRoom m moments (m.others s) = .ok (true, m, moments, m.others s) := by
    unfold waitForRoom
    exact if_neg fun h => h.elim (not_le_of_gt hroom) (by simp [hwrites])
  have hversion' : ¬ mqttVersion5.toInt ≤ s.mqttVersion.toInt := by
    rw [hversion]
    decide
  unfold publishMessage publishMessage5 publish5
  rw [if_neg hversion']
  dsimp only
  rw [if_neg (by simp [hconnected]), if_neg (by simp [hutf8]), hwait]
  exact buildPublish_unwritten _ _ hqos halloc hsent

end Written

end Session
