/-
# The exchange of messages (`MQTTProtocolClient.c`, `MQTTClient.c`)

What a client does with the packets that publish and acknowledge messages: the handlers
of the packets that it reads, the retries of what was not acknowledged, and the end and
the beginning of its connections.  This is the protocol before MQTT 5 (every client says so),
without persistence, where allocations succeed: the branches that the handlers have for MQTT 5,
such as the one for a `PUBREC` with an error code, are left out, and a publication that lacks its
id, whose payload has a negative length, is not one of the packets that they copy.

What a socket does when it is used is up to its `Chance`; a handler gives the client's
new state, its code, and the packets that the socket took from it.
-/
import DataLogger.MqttPacket
import DataLogger.Library.Machine

/-! ## The state of a client -/

/-- MQTT 3.1.1, by its number, is before MQTT 5. -/
theorem beforeMqtt5_four : (4 : CInt).toInt < mqttVersion5.toInt := by decide

/-- `Messages` in full: with the length of the topic, which is used for received messages, and with
the next packet that is expected and the time of the last one sent, where these are written. -/
structure StoredMessage extends Messages where
  topiclen : CInt
  nextMessageType : Option MsgTypes
  lastTouch : ℕ
  deriving DecidableEq, Repr

/-- `qEntry` and its `MQTTClient_message`: a message that waits for the application. -/
structure Clients.QEntry where
  topicName : CString
  topicLen : CInt
  msg : Message
  dup : Bool
  msgid : CInt
  deriving DecidableEq, Repr

/-- `Clients`: the fields that the exchange of messages depends on, for a client whose version is
before MQTT 5. -/
structure Clients where
  cleansession : Bool
  connected : Bool
  good : Bool
  msgID : CInt
  maxInflightMessages : CInt
  mqttVersion : CInt
  retryInterval : CInt
  outboundMsgs : List StoredMessage
  inboundMsgs : List StoredMessage
  messageQueue : List Clients.QEntry
  beforeMqtt5 : mqttVersion.toInt < mqttVersion5.toInt
  deriving DecidableEq, Repr

/-- The client as the functions that publish see it. -/
def Clients.session (c : Clients) : Session where
  cleansession := c.cleansession
  connected := c.connected
  msgID := c.msgID
  maxInflightMessages := c.maxInflightMessages
  outboundMsgs := c.outboundMsgs.map (·.toMessages)
  mqttVersion := c.mqttVersion

/-! ## Packets and the socket -/

/-- A packet that is sent, by the call that sends it. -/
inductive Sent
  /-- `MQTTPacket_send_publish`. -/
  | publish (pack : Publish) (dup : Bool) (qos retained : CInt)
  /-- `MQTTPacket_send_ack`. -/
  | ack (type : MsgTypes) (msgid : CInt) (dup : Bool)
  deriving DecidableEq, Repr

/-- The buffers that are written. -/
def Sent.buffers : Sent → List (List UInt8)
  | .publish pack dup qos retained => sendPublishBuffers pack dup qos retained
  | .ack type msgid dup => sendAckBuffers type msgid dup

/-- What becomes of a packet that is written to the socket: it is written, the rest of it is left to
be written later, or it cannot be written. -/
inductive WriteOutcome
  | complete
  | interrupted
  | failed
  deriving DecidableEq, Repr

/-- The code of a write. -/
def WriteOutcome.rc : WriteOutcome → CInt
  | .complete => 0
  | .interrupted => tcpsocketInterrupted
  | .failed => socketError

/-- What the socket does when it is used: whether there are no pending writes
(`Socket_noPendingWrites`), and what becomes of a packet. -/
structure Chance where
  noPendingWrites : Bool
  write : WriteOutcome
  deriving DecidableEq, Repr

/-- Send a packet: the code, and what the socket took. -/
def Chance.send (e : Chance) (p : Sent) : CInt × List Sent :=
  (e.write.rc, if e.write = .failed then [] else [p])

namespace Clients

/-! ## Lists of messages -/

/-- Find a message by its id (`ListFindItem` with `messageIDCompare`). -/
def findMessage (msgid : CInt) (msgs : List StoredMessage) : Option StoredMessage :=
  msgs.find? fun m => m.msgid = msgid

/-- Take the message that was found off its list (`ListRemove`). -/
def removeMessage (msgid : CInt) (msgs : List StoredMessage) : List StoredMessage :=
  msgs.eraseP fun m => m.msgid = msgid

/-- Write to the message that was found, or put another one in its place (`ListInsert`,
`ListRemove`). -/
def updateMessage (msgid : CInt) (f : StoredMessage → StoredMessage) :
    List StoredMessage → List StoredMessage
  | [] => []
  | m :: msgs => if m.msgid = msgid then f m :: msgs else m :: updateMessage msgid f msgs

/-! ## Packets that are received -/

/-- `Protocol_processPublication`: the message is put into the queue of the application. -/
def processPublication (c : Clients) (publish : PublishPacket) : Clients :=
  let qos : CInt := publish.header.qos.setWidth 32
  let entry : QEntry := {
    topicName := publish.topic
    topicLen := publish.topiclen
    msg := {
      payloadlen := publish.payloadlen
      payload := publish.payload
      qos := qos
      retained := if publish.header.retain then 1 else 0 }
    -- a message of this quality of service is never a duplicate for the application
    dup := if qos = 2 then false else publish.header.dup
    msgid := publish.msgId }
  { c with messageQueue := c.messageQueue ++ [entry] }

/-- The message that is stored for a publication with quality of service 2. -/
def inboundMessage (publish : PublishPacket) : StoredMessage where
  qos := publish.header.qos.setWidth 32
  retain := if publish.header.retain then 1 else 0
  msgid := publish.msgId
  topic := publish.topic
  payload := publish.payload
  payloadlen := publish.payloadlen
  topiclen := publish.topiclen
  nextMessageType := some .pubrel
  lastTouch := 0

/-- `MQTTProtocol_handlePublishes`. -/
def handlePublishes (c : Clients) (publish : PublishPacket) (e : Chance) :
    Clients × CInt × List Sent :=
  if publish.header.qos = 0 then (c.processPublication publish, 0, [])
  else if e.noPendingWrites = false then (c, socketError, [])
  else if publish.header.qos = 1 then
    (c.processPublication publish, e.send (.ack .puback publish.msgId false))
  else if publish.header.qos = 2 then
    let m := inboundMessage publish
    let inboundMsgs := match findMessage m.msgid c.inboundMsgs with
      | some _ => updateMessage m.msgid (fun _ => m) c.inboundMsgs
      | none => c.inboundMsgs ++ [m]
    ({ c with inboundMsgs := inboundMsgs }, e.send (.ack .pubrec publish.msgId false))
  else (c, 0, [])

/-- `MQTTProtocol_handlePubacks`. -/
def handlePubacks (c : Clients) (puback : Ack) : Clients × CInt × List Sent :=
  match findMessage puback.msgId c.outboundMsgs with
  | none => (c, 0, [])
  | some m =>
      if m.qos ≠ 1 then (c, 0, [])
      else ({ c with outboundMsgs := removeMessage puback.msgId c.outboundMsgs }, 0, [])

/-- What is written to a message whose reception is acknowledged at the time `now`. -/
def acknowledge (now : ℕ) (m : StoredMessage) : StoredMessage :=
  { m with nextMessageType := some .pubcomp, lastTouch := now }

/-- `MQTTProtocol_handlePubrecs`, at the time `now`.  A `PUBREC` has no error code before MQTT 5. -/
def handlePubrecs (c : Clients) (pubrec : Ack) (now : ℕ) (e : Chance) :
    Clients × CInt × List Sent :=
  match findMessage pubrec.msgId c.outboundMsgs with
  | none => (c, 0, [])
  | some m =>
      if m.qos ≠ 2 then (c, 0, [])
      else if m.nextMessageType ≠ some .pubrec then (c, 0, [])
      else
        -- the outcome of the write is not looked at here
        ({ c with outboundMsgs := updateMessage pubrec.msgId (acknowledge now) c.outboundMsgs },
          e.send (.ack .pubrel pubrec.msgId false))

/-- The publication that is passed on when its message is released. -/
def releasedPublish (m : StoredMessage) : PublishPacket where
  topic := m.topic
  payload := m.payload
  payloadlen := m.payloadlen
  msgId := m.msgid
  header := ⟨.reserved, false, m.qos.truncate 2, m.retain.getLsbD 0⟩
  topiclen := m.topiclen

/-- `MQTTProtocol_handlePubrels`. -/
def handlePubrels (c : Clients) (pubrel : Ack) (e : Chance) : Clients × CInt × List Sent :=
  match findMessage pubrel.msgId c.inboundMsgs with
  | none =>
      if pubrel.header.dup = false then (c, 0, [])
      else if e.noPendingWrites = false then (c, socketError, [])
      else (c, e.send (.ack .pubcomp pubrel.msgId false))
  | some m =>
      if m.qos ≠ 2 then (c, 0, [])
      else if m.nextMessageType ≠ some .pubrel then (c, 0, [])
      else if e.noPendingWrites = false then (c, socketError, [])
      else
        let c := c.processPublication (releasedPublish m)
        ({ c with inboundMsgs := removeMessage pubrel.msgId c.inboundMsgs },
          e.send (.ack .pubcomp pubrel.msgId false))

/-- `MQTTProtocol_handlePubcomps`. -/
def handlePubcomps (c : Clients) (pubcomp : Ack) : Clients × CInt × List Sent :=
  match findMessage pubcomp.msgId c.outboundMsgs with
  | none => (c, 0, [])
  | some m =>
      if m.qos ≠ 2 then (c, 0, [])
      else if m.nextMessageType ≠ some .pubcomp then (c, 0, [])
      else ({ c with outboundMsgs := removeMessage pubcomp.msgId c.outboundMsgs }, 0, [])

/-- `MQTTClient_cycle`, with the packet that was read: the handler of the packet.  The packets that
it has no handler for are left to its caller. -/
def cycle (c : Clients) (pack : Packet) (now : ℕ) (e : Chance) : Clients × CInt × List Sent :=
  match pack with
  | .publish publish => c.handlePublishes publish e
  | .ack ack =>
      match ack.header.type with
      | .puback => c.handlePubacks ack
      | .pubcomp => c.handlePubcomps ack
      | .pubrec => c.handlePubrecs ack now e
      | .pubrel => c.handlePubrels ack e
      | _ => (c, 0, [])
  | _ => (c, 0, [])

/-! ## Connections -/

/-- `MQTTClient_cleanSession`. -/
def cleanSession (c : Clients) : Clients :=
  { c with inboundMsgs := [], outboundMsgs := [], messageQueue := [], msgID := 0 }

/-- `MQTTClient_closeSession`. -/
def closeSession (c : Clients) : Clients :=
  let c := { c with good := false, connected := false }
  if c.mqttVersion.toInt < mqttVersion5.toInt ∧ c.cleansession then c.cleanSession else c

/-- The publication that a retry sends again. -/
def retryPublish (m : StoredMessage) : Publish := ⟨m.topic, m.payload, m.payloadlen, m.msgid⟩

/-- The loop of `MQTTProtocol_retries`, over the messages that are left: the messages, what the
socket took, and whether the session has to be closed.  `clock` is the time that a message is
touched. -/
def retriesLoop (retryInterval : CInt) (now clock : ℕ) (regardless : Bool) :
    (ℕ → Chance) → List StoredMessage → List StoredMessage × List Sent × Bool
  | _, [] => ([], [], false)
  | e, m :: msgs =>
      if (e 0).noPendingWrites = false then (m :: msgs, [], false)
      else
        let rest := retriesLoop retryInterval now clock regardless (fun n => e (n + 1)) msgs
        let touched := { m with lastTouch := clock } :: rest.1
        if regardless ∨ max retryInterval.toInt 10 * 1000 < (now : ℤ) - m.lastTouch then
          if m.qos = 1 ∨ (m.qos = 2 ∧ m.nextMessageType = some .pubrec) then
            if (e 0).write = .failed then (m :: msgs, [], true)
            else (touched, .publish (retryPublish m) true m.qos m.retain :: rest.2.1, rest.2.2)
          else if m.qos ≠ 0 ∧ m.nextMessageType = some .pubcomp then
            -- a release that is not written as a whole closes the session, too
            if (e 0).write ≠ .complete then (m :: msgs, [], true)
            else (touched, .ack .pubrel m.msgid false :: rest.2.1, rest.2.2)
          else (m :: rest.1, rest.2)
        else (m :: rest.1, rest.2)

/-- `MQTTProtocol_retries`; the flag says whether the session was closed. -/
def retries (c : Clients) (now clock : ℕ) (regardless : Bool) (e : ℕ → Chance) :
    Clients × Bool × List Sent :=
  if regardless = false ∧ c.retryInterval.toInt ≤ 0 then (c, false, [])
  else if c.connected ∧ c.good then
    let res := retriesLoop c.retryInterval now clock regardless e c.outboundMsgs
    let c := { c with outboundMsgs := res.1 }
    (if res.2.2 then c.closeSession else c, res.2.2, res.2.1)
  else (c, false, [])

/-- `MQTTProtocol_retry`, for one client. -/
def retry (c : Clients) (now clock : ℕ) (doRetry regardless : Bool) (e : ℕ → Chance) :
    Clients × Bool × List Sent :=
  if c.connected = false then (c, false, [])
  else if c.good = false then (c.closeSession, true, [])
  else if (e 0).noPendingWrites = false then (c, false, [])
  else if doRetry then c.retries now clock regardless fun n => e (n + 1)
  else (c, false, [])

/-- `MQTTClient_connectURIVersion`, from where the connection is accepted. -/
def connect (c : Clients) (clock : ℕ) (e : ℕ → Chance) : Clients × Bool × List Sent :=
  let c := { c with connected := true, good := true }
  let c := if c.cleansession then c.cleanSession else c
  if c.outboundMsgs = [] then (c, false, [])
  else
    let c := { c with
      outboundMsgs := c.outboundMsgs.map fun m : StoredMessage => { m with lastTouch := 0 } }
    c.retry 0 clock true true e

/-! ## Messages that are published -/

/-- `MQTTProtocol_createMessage`. -/
def createMessage (p : Publish) (qos retained : CInt) (clock : ℕ) : StoredMessage where
  qos := qos
  retain := retained
  msgid := p.msgId
  topic := p.topic
  payload := p.payload
  payloadlen := p.payloadlen
  topiclen := 0
  nextMessageType := if qos = 2 then some .pubrec else none
  lastTouch := clock

/-- `MQTTProtocol_startPublish`. -/
def startPublish (c : Clients) (p : Publish) (qos retained : CInt) (clock : ℕ) (e : Chance) :
    Clients × CInt × List Sent :=
  let c :=
    if 0 < qos.toInt then
      { c with outboundMsgs := c.outboundMsgs ++ [createMessage p qos retained clock] }
    else c
  (c, e.send (.publish p false qos retained))

/-- `MQTTClient_publish5`, from where the queue and the socket have room.  The code of a partial
write is that of the write: the wait for the rest of it, after which the source returns success or
failure, is not made here, where the rest goes out with the socket's other pending writes. -/
def publish (c : Clients) (topicName : CString) (payloadlen : CInt) (payload : CString)
    (qos retained : CInt) (clock : ℕ) (e : Chance) : Option (Clients × CInt × List Sent) :=
  (if 0 < qos.toInt then c.session.assignMsgId.map fun x => (x.1, { c with msgID := x.2.msgID })
    else some (0, c)).map fun (msgid, c) =>
    if 0 < qos.toInt ∧ msgid = 0 then (c, mqttClientMaxMessagesInflight, [])
    else
      let payload := if 0 < payloadlen.toInt then payload.take payloadlen.toNat else []
      let (c, rc, sent) :=
        c.startPublish ⟨topicName, payload, payloadlen, msgid⟩ qos retained clock e
      if rc = socketError then
        (c.closeSession, if 0 < qos.toInt then mqttClientSuccess else mqttClientFailure, sent)
      else (c, rc, sent)

/-- There is room for another message (the loop of `MQTTClient_publish5` that waits for it). -/
def HasRoom (c : Clients) (e : Chance) : Prop :=
  c.outboundMsgs.length < c.maxInflightMessages.toInt ∧ e.noPendingWrites = true

/-! ## The application -/

/-- The part of `MQTTClient_run` that calls the application with the first message of the queue,
which is taken off if the application accepts it. -/
def callMessageArrived (c : Clients) (accept : QEntry → Bool) : Clients × Option (QEntry × Bool) :=
  match c.messageQueue with
  | [] => (c, none)
  | qe :: queue =>
      if accept qe then ({ c with messageQueue := queue }, some (qe, true))
        else (c, some (qe, false))

/-! ## Runs -/

/-- What happens to a client: the application publishes, a packet has come, it is time for a retry
(or another client was connected, which makes everything be sent again `regardless` of the time),
the session is closed, a new connection is accepted, or the application is called. -/
inductive Event
  | publish (topicName : CString) (payloadlen : CInt) (payload : CString) (qos retained : CInt)
      (clock : ℕ) (e : Chance)
  | packet (pack : Packet) (now : ℕ) (e : Chance)
  | retry (now clock : ℕ) (doRetry regardless : Bool) (e : ℕ → Chance)
  | close
  | connect (clock : ℕ) (e : ℕ → Chance)
  | messageArrived (accept : QEntry → Bool)

instance (c : Clients) (e : Chance) : Decidable (c.HasRoom e) := inferInstanceAs (Decidable (_ ∧ _))

/-- One event, with what the socket took.  A publish goes on only when there is room. -/
def step (c : Clients) : Event → Except SessionFault (Clients × List Sent)
  | .publish topicName payloadlen payload qos retained clock e =>
      if c.connected ∧ utf8ValidateString topicName ∧ c.HasRoom e then
        match c.publish topicName payloadlen payload qos retained clock e with
        | none => .error .blocked
        | some (c, _, sent) => .ok (c, sent)
      else .ok (c, [])
  | .packet pack now e =>
      let (c, _, sent) := c.cycle pack now e
      .ok (c, sent)
  | .retry now clock doRetry regardless e =>
      let (c, _, sent) := c.retry now clock doRetry regardless e
      .ok (c, sent)
  | .close => .ok (c.closeSession, [])
  | .connect clock e =>
      let (c, _, sent) := c.connect clock e
      .ok (c, sent)
  | .messageArrived accept => .ok ((c.callMessageArrived accept).1, [])

end Clients

/-- A client with any peer, any application and any socket. -/
def clientMachine : Machine Clients Clients.Event (List Sent) SessionFault := ⟨Clients.step⟩
