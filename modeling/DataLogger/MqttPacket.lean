/-
# Packets (`MQTTPacket.c`, `MQTTPacketOut.c`)

The packets of MQTT 3.1 and 3.1.1 as bytes: how the client writes them, and what it makes
of the ones that it reads.  A packet is a header byte, the length of the rest in base
128, and the rest.

The functions that take a packet apart follow a pointer into its bytes and do not all look
where the bytes end.  What they read there are the bytes `behind` the data, up to the end of
the buffer that holds them: the buffer is never made smaller, so that these are what earlier
packets left.  To read past the end of the buffer is the fault `overread`.
-/
import DataLogger.MqttSession
import DataLogger.Library.Framing

/-! ## The header byte -/

/-- `enum msgTypes`, and the type 0, which `packet_names` calls `RESERVED`. -/
inductive MsgTypes
  | reserved | connect | connack | publish | puback | pubrec | pubrel | pubcomp
  | subscribe | suback | unsubscribe | unsuback | pingreq | pingresp | disconnect | auth
  deriving DecidableEq, Repr

/-- The types in the order of their numbers. -/
def packetNames : List MsgTypes :=
  [.reserved, .connect, .connack, .publish, .puback, .pubrec, .pubrel, .pubcomp,
    .subscribe, .suback, .unsubscribe, .unsuback, .pingreq, .pingresp, .disconnect, .auth]

/-- The number of a type. -/
def MsgTypes.code (t : MsgTypes) : ℕ := packetNames.idxOf t

/-- `Header`: the header byte, by its bits. -/
structure Header where
  type : MsgTypes
  dup : Bool
  qos : BitVec 2
  retain : Bool
  deriving DecidableEq, Repr

/-- `header.byte`, with the low bits first. -/
def Header.byte (h : Header) : UInt8 :=
  UInt8.ofNat (h.retain.toNat + 2 * h.qos.toNat + 8 * h.dup.toNat + 16 * h.type.code)

/-- `header.bits` of a byte. -/
def Header.ofByte (b : UInt8) : Header where
  type := packetNames.getD (b.toNat / 16) .reserved
  dup := b.toNat / 8 % 2 = 1
  qos := BitVec.ofNat 2 (b.toNat / 2)
  retain := b.toNat % 2 = 1

/-! ## Numbers and strings -/

/-- Why the reading of a packet has no defined outcome. -/
inductive PacketFault
  /-- It reads past the end of the buffer that holds the packet. -/
  | overread
  /-- It reads a packet that it has freed. -/
  | freed
  deriving DecidableEq, Repr

/-- `MAX_NO_OF_REMAINING_LENGTH_BYTES`. -/
def maxNoOfRemainingLengthBytes : ℕ := 4

/-- The loop of `MQTTPacket_encode`.  Ten digits are enough for a `size_t`. -/
def encodeLoop : ℕ → CULong → List UInt8
  | 0, _ => []
  | fuel + 1, length =>
      let d : UInt8 := .ofBitVec ((length % 128).truncate 8)
      let length := length / 128
      if 0 < length then (d ||| 0x80) :: encodeLoop fuel length else [d]

/-- `MQTTPacket_encode`. -/
def encode (length : CULong) : List UInt8 := encodeLoop 10 length

/-- The loop of `MQTTPacket_decode`, over the bytes that have come. -/
def decodeLoop (len : ℕ) (multiplier : CInt) (value : CULong) (bytes : List UInt8) :
    Parse UInt8 CULong :=
  if maxNoOfRemainingLengthBytes < len + 1 then .bad
  else
    match bytes with
    | [] => .more
    | c :: bytes =>
        let value := value + CInt.toULong ((c &&& 127).toBitVec.zeroExtend 32 * multiplier)
        if c &&& 128 ≠ 0 then decodeLoop (len + 1) (multiplier * 128) value bytes
        else .done value bytes

/-- `MQTTPacket_decode`. -/
def decode (bytes : List UInt8) : Parse UInt8 CULong := decodeLoop 0 1 0 bytes

/-- `writeInt`. -/
def writeInt (anInt : CInt) : List UInt8 :=
  [.ofBitVec ((anInt.sdiv 256).truncate 8), .ofBitVec ((anInt.srem 256).truncate 8)]

/-- `readInt`: the number, and the rest.  It does not look where the data end, so that its callers
give it the bytes behind the data, too. -/
def readInt : List UInt8 → Except PacketFault (CInt × List UInt8)
  | hi :: lo :: rest => .ok (BitVec.ofNat 32 (256 * hi.toNat + lo.toNat), rest)
  | _ => .error .overread

/-- `writeUTF`. -/
def writeUTF (string : CString) : List UInt8 := writeInt (strlen string).toCInt ++ string

/-- `readUTFlen`: the string and the rest, if the string ends within the packet. -/
def readUTFlen : List UInt8 → Option (CString × List UInt8)
  | hi :: lo :: rest =>
      let len := 256 * hi.toNat + lo.toNat
      if len ≤ rest.length then some (rest.take len, rest.drop len) else none
  | _ => none

/-! ## Packets that are received -/

/-- `Publish`, as it is received. -/
structure PublishPacket extends Publish where
  header : Header
  topiclen : CInt
  deriving DecidableEq, Repr

/-- `Ack`. -/
structure Ack where
  header : Header
  msgId : CInt
  deriving DecidableEq, Repr

/-- What `MQTTPacket_Factory` builds. -/
inductive Packet
  | publish (p : PublishPacket)
  | ack (a : Ack)
  /-- `Connack`: the flags, and the return code. -/
  | connack (header : Header) (flags rc : UInt8)
  /-- `Suback`: the id, and the list of granted qualities of service. -/
  | suback (header : Header) (msgId : CInt) (qoss : List UInt8)
  | unsuback (header : Header) (msgId : CInt)
  | headerOnly (header : Header)
  deriving DecidableEq, Repr

/-- `MQTTPacket_publish`; `none` is a packet that is not accepted.  The string is looked for within
the data, but not the id, which is read behind them if they end before it: then nothing is left of
the data, and the length of the payload is negative. -/
def mqttPacketPublish (aHeader : UInt8) (data behind : List UInt8) :
    Except PacketFault (Option Packet) :=
  let header := Header.ofByte aHeader
  match readUTFlen data with
  | none => .ok none
  | some (topic, curdata) =>
      if 0 < header.qos.toNat then do
        let (msgId, _) ← readInt (curdata ++ behind)
        let payloadlen := BitVec.ofInt 32 (curdata.length - 2)
        return some (.publish
          ⟨⟨topic, curdata.drop 2, payloadlen, msgId⟩, header, .ofNat 32 topic.length⟩)
      else
        .ok (some (.publish
          ⟨⟨topic, curdata, .ofNat 32 curdata.length, 0⟩, header, .ofNat 32 topic.length⟩))

/-- `MQTTPacket_ack`.  The id of a `DISCONNECT` is not read; its field is left as it is there, and
nothing looks at it. -/
def mqttPacketAck (aHeader : UInt8) (data behind : List UInt8) :
    Except PacketFault (Option Packet) :=
  let header := Header.ofByte aHeader
  if header.type ≠ .disconnect then do
    let (msgId, _) ← readInt (data ++ behind)
    return some (.ack ⟨header, msgId⟩)
  else .ok (some (.ack ⟨header, 0⟩))

/-- `MQTTPacket_connack`: the two bytes are read before the length is looked at. -/
def mqttPacketConnack (aHeader : UInt8) (data behind : List UInt8) :
    Except PacketFault (Option Packet) :=
  match data ++ behind with
  | flags :: rc :: _ =>
      .ok (if data.length = 2 then some (.connack (Header.ofByte aHeader) flags rc) else none)
  | _ => .error .overread

/-- `MQTTPacket_suback`.  A packet that grants nothing is freed, and its empty list is then freed
through it. -/
def mqttPacketSuback (aHeader : UInt8) (data behind : List UInt8) :
    Except PacketFault (Option Packet) := do
  let (msgId, _) ← readInt (data ++ behind)
  if data.drop 2 = [] then .error .freed
  else return some (.suback (Header.ofByte aHeader) msgId (data.drop 2))

/-- `MQTTPacket_unsuback`. -/
def mqttPacketUnsuback (aHeader : UInt8) (data behind : List UInt8) :
    Except PacketFault (Option Packet) := do
  let (msgId, _) ← readInt (data ++ behind)
  return some (.unsuback (Header.ofByte aHeader) msgId)

/-- `MQTTPacket_header_only`. -/
def mqttPacketHeaderOnly (aHeader : UInt8) (_data _behind : List UInt8) :
    Except PacketFault (Option Packet) :=
  .ok (some (.headerOnly (Header.ofByte aHeader)))

/-- `new_packets`: the functions that build packets, by type. -/
def newPackets : MsgTypes →
    Option (UInt8 → List UInt8 → List UInt8 → Except PacketFault (Option Packet))
  | .connack => some mqttPacketConnack
  | .publish => some mqttPacketPublish
  | .puback | .pubrec | .pubrel | .pubcomp | .disconnect | .auth => some mqttPacketAck
  | .suback => some mqttPacketSuback
  | .unsuback => some mqttPacketUnsuback
  | .pingreq | .pingresp => some mqttPacketHeaderOnly
  | .reserved | .connect | .subscribe | .unsubscribe => none

/-- What `MQTTPacket_Factory` makes of a packet that has come as a whole, before MQTT 5: the
packet and the code.  A type that it does not build is left out with no error. -/
def buildPacket (aHeader : UInt8) (data behind : List UInt8) :
    Except PacketFault (Option Packet × CInt) :=
  let ptype := (Header.ofByte aHeader).type
  if ptype.code < MsgTypes.connect.code ∨ MsgTypes.disconnect.code ≤ ptype.code then .ok (none, 0)
  else
    match newPackets ptype with
    | none => .ok (none, 0)
    | some new =>
        (new aHeader data behind).map fun pack => (pack, if pack = none then socketError else 0)

/-! ## Packets that are sent -/

/-- `MQTTPacket_sends`, and `MQTTPacket_send` with one buffer: the buffers of the packet, with the
one that holds the header byte and the length first. -/
def mqttPacketSends (header : Header) (bufs : List (List UInt8)) : List (List UInt8) :=
  (header.byte :: encode (BitVec.ofNat 64 bufs.flatten.length)) :: bufs

/-- `MQTTPacket_send_publish`: the buffers that are written. -/
def sendPublishBuffers (pack : Publish) (dup : Bool) (qos retained : CInt) : List (List UInt8) :=
  let header : Header := ⟨.publish, dup, qos.truncate 2, retained.getLsbD 0⟩
  let topiclen := writeInt (strlen pack.topic).toCInt
  let payload := pack.payload.take pack.payloadlen.toNat
  if 0 < qos.toInt then
    mqttPacketSends header [topiclen, pack.topic, writeInt pack.msgId, payload]
  else
    mqttPacketSends header [topiclen, pack.topic, payload]

/-- `MQTTPacket_send_ack`. -/
def sendAckBuffers (type : MsgTypes) (msgid : CInt) (dup : Bool) : List (List UInt8) :=
  mqttPacketSends ⟨type, dup, if type = .pubrel then 1 else 0, false⟩ [writeInt msgid]

/-- `MQTTPacket_send_pingreq`. -/
def sendPingreqBuffers : List (List UInt8) := mqttPacketSends ⟨.pingreq, false, 0, false⟩ [[]]
