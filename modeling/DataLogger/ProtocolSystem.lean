/-
# Two clients and the connection between them

The exchange of messages has two halves, and a client has both: the handlers of its own
messages in flight, and those of the messages that it is sent.  Here the half of a client
that publishes is joined to the half of a client that receives, by a connection that keeps
the order of packets, breaks at any moment, and is made anew.

What a client sends arrives as the packet `Sent.packet`; `Sent.read_back` says that the bytes
that are written for it are read as that packet.  A write that is interrupted counts as sent:
what is left of it goes out, or the connection breaks.  Each client is the only one of its
process, and one call ends before the next one begins.
-/
import DataLogger.ProtocolInvariant
import DataLogger.PacketFormat
import DataLogger.Library.HandshakeOrder

/-! ## Packets -/

/-- The packet that its peer reads when a client has sent one. -/
def Sent.packet : Sent → Packet
  | .publish pack dup qos retained =>
      let payload := pack.payload.take pack.payloadlen.toNat
      .publish {
        topic := pack.topic
        payload := payload
        payloadlen := .ofNat 32 payload.length
        msgId := if 0 < qos.toInt then pack.msgId else 0
        header := publishHeader dup qos retained
        topiclen := .ofNat 32 pack.topic.length }
  | .ack type msgid dup => .ack ⟨⟨type, dup, if type = .pubrel then 1 else 0, false⟩, msgid⟩

/-- The packet keeps to the limits of the format, and its payload is there. -/
def Sent.Fits : Sent → Prop
  | .publish pack _ qos _ => qos.toNat < 3 ∧ pack.topic.length < 65536 ∧ pack.msgId.toNat < 65536 ∧
      0 ≤ pack.payloadlen.toInt ∧ pack.payloadlen.toInt ≤ pack.payload.length ∧
      pack.topic.length + pack.payloadlen.toNat + 4 < 128 ^ 4
  | .ack type msgid _ => type ∈ [MsgTypes.puback, .pubrec, .pubrel, .pubcomp] ∧ msgid.toNat < 65536

instance : DecidablePred Sent.Fits
  | .publish _ _ _ _ => inferInstanceAs (Decidable (_ ∧ _))
  | .ack _ _ _ => inferInstanceAs (Decidable (_ ∧ _))

/-- **What is sent is what is read**, whatever bytes an earlier packet left `behind` it. -/
theorem Sent.read_back {s : Sent} (h : s.Fits) (behind : List UInt8) :
    receivePacket s.buffers.flatten behind = some (.ok (some s.packet, 0)) := by
  cases s with
  | publish pack dup qos retained =>
      obtain ⟨hqos, htopic, hid, hpos, hlen, hfits⟩ := h
      have hnat : pack.payloadlen.toInt = pack.payloadlen.toNat := by
        rw [BitVec.toInt_eq_toNat_cond] at hpos ⊢
        split <;> omega
      have hlength : (pack.payload.take pack.payloadlen.toNat).length = pack.payloadlen.toNat := by
        rw [List.length_take]
        omega
      have hlen32 : BitVec.ofNat 32 pack.payloadlen.toNat = pack.payloadlen :=
        BitVec.ofNat_toNat _ _
      -- the publication with its id and payload as they are written
      let sent : Publish := ⟨pack.topic, pack.payload.take pack.payloadlen.toNat, pack.payloadlen,
        if 0 < qos.toInt then pack.msgId else 0⟩
      have hbuffers : sendPublishBuffers pack dup qos retained =
          sendPublishBuffers sent dup qos retained := by
        simp only [sendPublishBuffers, sent, List.take_take, min_self]
        split <;> rfl
      have hzero : qos = 0 → sent.msgId = 0 := by
        rintro rfl
        rfl
      have hsentid : sent.msgId.toNat < 65536 := by
        simp only [sent]
        split
        · exact hid
        · decide
      have hsentlen : sent.payloadlen.toInt = sent.payload.length := by
        simp only [sent, hlength, hnat]
      have hsentfits : 2 + sent.topic.length + (if 0 < qos.toNat then 2 else 0) +
          sent.payload.length < 128 ^ 4 := by
        simp only [sent, hlength]
        split <;> omega
      have hround : receivePacket (sendPublishBuffers sent dup qos retained).flatten behind =
          some (.ok (some (.publish
            ⟨sent, publishHeader dup qos retained, .ofNat 32 sent.topic.length⟩), 0)) :=
        sendPublish_read_back hqos hsentlen hsentid hzero htopic hsentfits
      rw [Sent.buffers, hbuffers, hround, Sent.packet]
      simp only [sent, hlength, hlen32]
  | ack type msgid dup => exact sendAck_roundtrip dup behind h.1 h.2

/-- Packets that are sent one after the other are read as they were sent, each of them whatever
bytes are behind it. -/
theorem Sent.frames_read_back {l : List Sent} (h : ∀ s ∈ l, s.Fits) :
    ∃ fs, packetFramer.frames (l.flatMap fun s => s.buffers.flatten) = (fs, []) ∧
      ∀ behind, fs.map (fun f => buildPacket f.1 f.2 behind) =
        l.map fun s => .ok (some s.packet, 0) := by
  induction l with
  | nil => exact ⟨[], Framer.frames_nil, fun _ => rfl⟩
  | cons s l ih =>
      obtain ⟨fs, hframes, hbuild⟩ := ih fun s' hs' => h s' (List.mem_cons_of_mem _ hs')
      have hread := Sent.read_back (h s List.mem_cons_self)
      obtain ⟨f, hparse, hbuilt⟩ := parsePacket_of_receivePacket (hread [])
      have hdone := packetFramer.done_append (l.flatMap fun s => s.buffers.flatten) hparse
      refine ⟨f :: fs, ?_, fun behind => ?_⟩
      · rw [List.flatMap_cons, Framer.frames_of_done hdone, List.nil_append, hframes]
      · have hfirst : buildPacket f.1 f.2 behind = .ok (some s.packet, 0) :=
          Option.some.inj ((hbuilt behind).symm.trans (hread behind))
        rw [List.map_cons, List.map_cons, hbuild, hfirst]

/-! ## Messages -/

/-- What the application is given of a message. -/
structure Content where
  topic : CString
  payload : CString
  retain : Bool
  deriving DecidableEq, Repr

/-- The content of a message, by its fields. -/
def contentOf (topic payload : CString) (payloadlen retain : CInt) : Content :=
  ⟨topic, payload.take payloadlen.toNat, retain.getLsbD 0⟩

/-- The content of a message that is in flight, or held. -/
def StoredMessage.content (m : StoredMessage) : Content :=
  contentOf m.topic m.payload m.payloadlen m.retain

/-- The content of a message in the queue of the application. -/
def Clients.QEntry.content (qe : Clients.QEntry) : Content :=
  contentOf qe.topicName qe.msg.payload qe.msg.payloadlen qe.msg.retained

/-! ## The system -/

/-- A client that publishes, a client that receives, what is on its way between them, and whether
the connection still takes what is sent; with the messages of quality of service 2 that were put in
flight, and what the receiver's application has accepted. -/
structure System where
  sender : Clients
  receiver : Clients
  up : Bool
  forward : List Sent
  back : List Sent
  published : List Content
  accepted : List Clients.QEntry

namespace System

/-- What happens. -/
inductive Action
  | publish (topicName : CString) (payloadlen : CInt) (payload : CString) (qos retained : CInt)
      (clock : ℕ) (e : Chance)
  | senderReads (now : ℕ) (e : Chance)
  | receiverReads (now : ℕ) (e : Chance)
  | retry (now clock : ℕ) (doRetry regardless : Bool) (e : ℕ → Chance)
  | disconnect
  | senderCloses
  | receiverCloses
  | connect (clock : ℕ) (e e' : ℕ → Chance)
  | messageArrived (accept : Clients.QEntry → Bool)

/-- The sender publishes. -/
def publish (s : System) (topicName : CString) (payloadlen : CInt) (payload : CString)
    (qos retained : CInt) (clock : ℕ) (e : Chance) : Except SessionFault System :=
  if s.sender.connected ∧ utf8ValidateString topicName ∧ s.sender.HasRoom e then
    match s.sender.publish topicName payloadlen payload qos retained clock e with
    | none => .error .blocked
    | some (c, rc, sent) => .ok { s with
        sender := c
        up := s.up && e.write ≠ .failed
        forward := s.forward ++ Exchange.pass s.up sent
        published := if qos = 2 ∧ rc ≠ mqttClientMaxMessagesInflight then
            s.published ++ [contentOf topicName
              (Clients.publishPack topicName payloadlen payload 0).payload
              payloadlen retained]
          else s.published }
  else .ok s

/-- The sender reads a packet; as in `MQTTClient_run` it closes the connection if there was an
error. -/
def senderReads (s : System) (now : ℕ) (e : Chance) : System :=
  match s.back with
  | [] => s
  | p :: back =>
      if s.sender.connected then
        let (c, rc, sent) := s.sender.cycle p.packet now e
        if rc = socketError then
          { s with sender := c.closeSession, up := false, back := [] }
        else { s with sender := c, forward := s.forward ++ Exchange.pass s.up sent, back := back }
      else s

/-- The receiver reads a packet. -/
def receiverReads (s : System) (now : ℕ) (e : Chance) : System :=
  match s.forward with
  | [] => s
  | p :: forward =>
      if s.receiver.connected then
        let (c, rc, sent) := s.receiver.cycle p.packet now e
        if rc = socketError then
          { s with receiver := c.closeSession, up := false, forward := [] }
        else { s with receiver := c, forward := forward, back := s.back ++ Exchange.pass s.up sent }
      else s

/-- One action. -/
def step (s : System) : Action → Except SessionFault (System × Unit)
  | .publish topicName payloadlen payload qos retained clock e =>
      (s.publish topicName payloadlen payload qos retained clock e).map fun s => (s, ())
  | .senderReads now e => .ok (s.senderReads now e, ())
  | .receiverReads now e => .ok (s.receiverReads now e, ())
  | .retry now clock doRetry regardless e =>
      let (c, closed, sent) := s.sender.retry now clock doRetry regardless e
      .ok ({ s with
        sender := c
        up := s.up && !closed
        forward := s.forward ++ Exchange.pass s.up sent }, ())
  | .disconnect => .ok ({ s with up := false }, ())
  | .senderCloses => .ok ({ s with sender := s.sender.closeSession, up := false, back := [] }, ())
  | .receiverCloses =>
    .ok ({ s with receiver := s.receiver.closeSession, up := false, forward := [] }, ())
  | .connect clock e e' =>
      if s.sender.connected ∨ s.receiver.connected then .ok (s, ())
      else
        let (c, closed, sent) := s.sender.connect clock e
        .ok ({ s with
          sender := c
          receiver := (s.receiver.connect clock e').1
          up := !closed
          forward := sent
          back := [] }, ())
  | .messageArrived accept =>
      let (c, called) := s.receiver.callMessageArrived accept
      .ok ({ s with
        receiver := c
        accepted := match called with
          | some (qe, true) => s.accepted ++ [qe]
          | _ => s.accepted }, ())

end System

/-- The machine of the two clients. -/
def systemMachine : Machine System System.Action Unit SessionFault := ⟨System.step⟩

/-- The options of `MQTTClient_connectOptions` that the session depends on, for a version before
MQTT 5. -/
structure SessionOptions where
  cleansession : Bool
  maxInflightMessages : CInt
  mqttVersion : CInt
  retryInterval : CInt
  beforeMqtt5 : mqttVersion.toInt < mqttVersion5.toInt
  deriving Repr

/-- The session is kept from one connection to the next. -/
def SessionOptions.Kept (o : SessionOptions) : Prop := o.cleansession = false

/-- A client that was created, with the options of all its connections. -/
def newClient (options : SessionOptions) : Clients where
  cleansession := options.cleansession
  connected := false
  good := false
  msgID := 0
  maxInflightMessages := options.maxInflightMessages
  mqttVersion := options.mqttVersion
  retryInterval := options.retryInterval
  outboundMsgs := []
  inboundMsgs := []
  messageQueue := []
  beforeMqtt5 := options.beforeMqtt5

/-- Two clients before their first connection: the one that publishes, and the one that receives,
with the options of each. -/
def System.initial (sending receiving : SessionOptions) : System where
  sender := newClient sending
  receiver := newClient receiving
  up := false
  forward := []
  back := []
  published := []
  accepted := []
