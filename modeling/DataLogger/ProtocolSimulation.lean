/-
# The two clients as an exchange

The system of a client that publishes and a client that receives is an exchange of messages
in the sense of `Library.Handshake`: `System.exchange` says which one, and what each of the
two does is a step of it.

* `System.receiver_moves`, `System.sender_moves` : what is done with a packet that was read;
* `System.Fine.publish`, `System.Fine.retried`, `System.Fine.connected` : what else the sender
  does.
-/
import DataLogger.ProtocolSystem

/-! ## The exchange of the two clients -/

/-- What a message in flight is to the exchange. -/
def StoredMessage.toInFlight (m : StoredMessage) : Option (InFlight CInt Content) :=
  if m.qos = 2 then some ⟨m.msgid, m.content, m.nextMessageType = some .pubcomp⟩ else none

/-- What a packet of the sender is to the exchange. -/
def Sent.toForward : Sent → Option (Forward CInt Content)
  | .publish pack _ qos retained =>
      if qos = 2 then some
        (.publish pack.msgId (contentOf pack.topic pack.payload pack.payloadlen retained))
      else none
  | .ack .pubrel msgid _ => some (.release msgid)
  | .ack _ _ _ => none

/-- What a packet of the receiver is to the exchange. -/
def Sent.toReply : Sent → Option (Reply CInt)
  | .ack .pubrec msgid _ => some (.received msgid)
  | .ack .pubcomp msgid _ => some (.complete msgid)
  | _ => none

/-- A packet that goes to the receiver. -/
def Sent.IsForward : Sent → Prop
  | .publish pack dup qos retained => (Sent.publish pack dup qos retained).Fits
  | .ack type msgid dup => type = .pubrel ∧ dup = false ∧ msgid.toNat < 65536

/-- A packet that goes to the sender. -/
def Sent.IsBack : Sent → Prop
  | .publish _ _ _ _ => False
  | .ack type msgid _ => type ∈ [MsgTypes.puback, .pubrec, .pubcomp] ∧ msgid.toNat < 65536

/-- The content of a message with quality of service 2. -/
def Clients.QEntry.delivered (qe : Clients.QEntry) : Option Content :=
  if qe.msg.qos = 2 then some qe.content else none

namespace System

/-- What the receiver's application was given, or still waits for it, of quality of service 2. -/
def delivered (s : System) : List Content :=
  (s.accepted ++ s.receiver.messageQueue).filterMap Clients.QEntry.delivered

/-- What a client holds until its release, by the id. -/
def heldOf (c : Clients) (i : CInt) : Option Content :=
  (Clients.findMessage i c.inboundMsgs).map StoredMessage.content

/-- What was published and is neither accepted by the receiver's application nor in its queue. -/
def undelivered (s : System) : List Content :=
  (s.sender.outboundMsgs.filter fun m => m.qos = 2 ∧ (m.nextMessageType ≠ some .pubcomp ∨
    (Clients.findMessage m.msgid s.receiver.inboundMsgs).isSome)).map (·.content)

/-- The system as an exchange of messages with quality of service 2. -/
def exchange (s : System) : Exchange CInt Content where
  inFlight := s.sender.outboundMsgs.filterMap StoredMessage.toInFlight
  held := heldOf s.receiver
  forward := s.forward.filterMap Sent.toForward
  replies := s.back.filterMap Sent.toReply
  submitted := s.published
  delivered := s.delivered

/-- What is undelivered in the exchange is what is undelivered. -/
theorem undelivered_exchange (s : System) : s.exchange.undelivered = s.undelivered := by
  unfold Exchange.undelivered undelivered exchange heldOf
  dsimp only
  induction s.sender.outboundMsgs with
  | nil => rfl
  | cons m msgs ih =>
      by_cases hqos : m.qos = 2
      · have hflight : m.toInFlight =
            some ⟨m.msgid, m.content, m.nextMessageType = some .pubcomp⟩ := if_pos hqos
        rw [List.filterMap_cons_some hflight]
        by_cases hwaits : m.nextMessageType ≠ some .pubcomp ∨
            (Clients.findMessage m.msgid s.receiver.inboundMsgs).isSome
        · rw [List.filter_cons_of_pos
            (by simpa [Exchange.Waits, Option.isSome_iff_ne_none] using hwaits),
            List.filter_cons_of_pos (by simpa [hqos] using hwaits), List.map_cons, List.map_cons,
              ih]
        · rw [List.filter_cons_of_neg
            (by simpa [Exchange.Waits, Option.isSome_iff_ne_none] using hwaits),
            List.filter_cons_of_neg (by simpa [hqos] using hwaits), ih]
      · have hflight : m.toInFlight = none := if_neg hqos
        rw [List.filterMap_cons_none hflight,
          List.filter_cons_of_neg fun h => hqos (of_decide_eq_true h).1, ih]

/-! ## Lists of messages as parts of an exchange -/

section Lists

variable {msgs msgs' : List StoredMessage} {m : StoredMessage} {i j : CInt}

/-- A message keeps its id. -/
theorem toInFlight_id {x : InFlight CInt Content} (h : m.toInFlight = some x) : x.id = m.msgid := by
  unfold StoredMessage.toInFlight at h
  split at h
  · cases h
    rfl
  · cases h

/-- Removing a message removes it from the exchange. -/
theorem filterMap_removeMessage (hmsgs : (msgs.map (·.msgid)).Nodup) :
    (Clients.removeMessage i msgs).filterMap StoredMessage.toInFlight =
      Exchange.removeOf i (msgs.filterMap StoredMessage.toInFlight) := by
  rw [Clients.removeMessage_eq hmsgs]
  clear hmsgs
  induction msgs with
  | nil => rfl
  | cons m msgs ih =>
      rw [Exchange.removeOf] at ih ⊢
      rcases hflight : m.toInFlight with _ | x
      · rw [List.filterMap_cons_none hflight, ← ih]
        by_cases hm : m.msgid = i
        · rw [List.filter_cons_of_neg (by simpa using hm)]
        · rw [List.filter_cons_of_pos (by simpa using hm), List.filterMap_cons_none hflight]
      · have hid := toInFlight_id hflight
        rw [List.filterMap_cons_some hflight]
        by_cases hm : m.msgid = i
        · rw [List.filter_cons_of_neg (by simpa using hm),
            List.filter_cons_of_neg (by simpa [hid] using hm), ih]
        · rw [List.filter_cons_of_pos (by simpa using hm),
            List.filter_cons_of_pos (by simpa [hid] using hm), List.filterMap_cons_some hflight, ih]

/-- Acknowledging a message releases it in the exchange. -/
theorem filterMap_acknowledge {now : ℕ} (hmsgs : (msgs.map (·.msgid)).Nodup) :
    (Clients.updateMessage i (Clients.acknowledge now) msgs).filterMap StoredMessage.toInFlight =
      Exchange.releaseOf i (msgs.filterMap StoredMessage.toInFlight) := by
  rw [Clients.updateMessage_eq hmsgs, Exchange.releaseOf, List.filterMap_map, List.map_filterMap]
  refine List.filterMap_congr fun m _ => ?_
  rw [Function.comp_apply, StoredMessage.toInFlight, StoredMessage.toInFlight]
  by_cases hid : m.msgid = i <;> by_cases hqos : m.qos = 2 <;>
    simp [hid, hqos, Clients.acknowledge, StoredMessage.content]

/-- The times of the messages do not matter to the exchange. -/
theorem filterMap_touched (htouched : msgs'.map Clients.untouched = msgs.map Clients.untouched) :
    msgs'.filterMap StoredMessage.toInFlight = msgs.filterMap StoredMessage.toInFlight := by
  have hcongr := congrArg (List.filterMap StoredMessage.toInFlight) htouched
  rwa [List.filterMap_map, List.filterMap_map] at hcongr

/-- What is sent again is what the exchange sends again. -/
theorem filterMap_retryPacket (hmsgs : ∀ m ∈ msgs, Clients.OutboundOk m) :
    (msgs.filterMap Clients.retryPacket).filterMap Sent.toForward =
      (msgs.filterMap StoredMessage.toInFlight).map (·.packet) := by
  rw [List.filterMap_filterMap, List.map_filterMap]
  refine List.filterMap_congr fun m hm => ?_
  obtain ⟨-, -, hnext, hother⟩ := hmsgs m hm
  rw [Clients.retryPacket, StoredMessage.toInFlight]
  by_cases hqos : m.qos = 2
  · have hone : m.qos ≠ 1 := by rw [hqos]; decide
    have hzero : m.qos ≠ 0 := by rw [hqos]; decide
    rw [if_pos hqos]
    rcases hnext hqos with hnext | hnext
    · rw [if_pos (Or.inr ⟨hqos, hnext⟩)]
      simp only [Option.bind_some, Sent.toForward, if_pos hqos, Option.map_some, hnext]
      rfl
    · have hnot : ¬ (m.qos = 1 ∨ (m.qos = 2 ∧ m.nextMessageType = some .pubrec)) := by
        rintro (h | ⟨-, h⟩)
        · exact hone h
        · rw [hnext] at h
          cases h
      rw [if_neg hnot, if_pos ⟨hzero, hnext⟩]
      simp only [Option.bind_some, Sent.toForward, Option.map_some, hnext]
      rfl
  · rw [if_neg hqos]
    by_cases hone : m.qos = 1
    · rw [if_pos (Or.inl hone)]
      exact if_neg hqos
    · rw [if_neg (fun h => h.elim hone fun h => hqos h.1), if_neg (by simp [hother hqos])]
      rfl

theorem findMessage_cons_of_ne (h : m.msgid ≠ i) :
    Clients.findMessage i (m :: msgs) = Clients.findMessage i msgs :=
  List.find?_cons_of_neg (by simpa using h)

theorem findMessage_cons_self : Clients.findMessage m.msgid (m :: msgs) = some m :=
  List.find?_cons_of_pos (by simp)

/-- After a write to the message of an id that message is found there. -/
theorem findMessage_updateMessage {m' : StoredMessage}
    (hfind : Clients.findMessage m.msgid msgs = some m') :
    Clients.findMessage j (Clients.updateMessage m.msgid (fun _ => m) msgs) =
      if j = m.msgid then some m else Clients.findMessage j msgs := by
  induction msgs with
  | nil => cases hfind
  | cons m'' msgs ih =>
      rw [Clients.updateMessage]
      by_cases hid : m''.msgid = m.msgid
      · rw [if_pos hid]
        by_cases hj : j = m.msgid
        · rw [if_pos hj, hj, findMessage_cons_self]
        · rw [if_neg hj, findMessage_cons_of_ne (Ne.symm hj),
            findMessage_cons_of_ne (hid ▸ Ne.symm hj)]
      · rw [findMessage_cons_of_ne hid] at hfind
        rw [if_neg hid]
        by_cases hj : m''.msgid = j
        · subst hj
          rw [findMessage_cons_self, findMessage_cons_self, if_neg hid]
        · rw [findMessage_cons_of_ne hj, findMessage_cons_of_ne hj, ih hfind]

/-- What is stored under an id is found there. -/
theorem findMessage_storeMessage : Clients.findMessage j (Clients.storeMessage m msgs) =
    if j = m.msgid then some m else Clients.findMessage j msgs := by
  rcases hfind : Clients.findMessage m.msgid msgs with _ | m'
  · simp only [Clients.storeMessage, hfind]
    rw [Clients.findMessage, List.find?_append, ← Clients.findMessage]
    by_cases hj : j = m.msgid
    · rw [if_pos hj, hj, hfind]
      exact findMessage_cons_self
    · rw [if_neg hj, List.find?_cons_of_neg (by simpa using Ne.symm hj)]
      exact Option.or_none
  · simp only [Clients.storeMessage, hfind]
    exact findMessage_updateMessage hfind

/-- What is removed is not found any more, the others are. -/
theorem findMessage_removeMessage (hmsgs : (msgs.map (·.msgid)).Nodup) :
    Clients.findMessage j (Clients.removeMessage i msgs) = if j = i then none
      else Clients.findMessage j msgs := by
  rw [Clients.removeMessage_eq hmsgs]
  by_cases hj : j = i
  · rw [if_pos hj, Clients.findMessage_eq_none]
    intro m hm
    rw [hj]
    simpa using (List.mem_filter.mp hm).2
  · rw [if_neg hj]
    clear hmsgs
    induction msgs with
    | nil => rfl
    | cons m msgs ih =>
        by_cases hm : m.msgid = i
        · rw [List.filter_cons_of_neg (by simpa using hm), ih,
            findMessage_cons_of_ne (hm ▸ Ne.symm hj)]
        · rw [List.filter_cons_of_pos (by simpa using hm)]
          by_cases hmj : m.msgid = j
          · subst hmj
            rw [findMessage_cons_self, findMessage_cons_self]
          · rw [findMessage_cons_of_ne hmj, findMessage_cons_of_ne hmj, ih]

end Lists

/-! ## What the two clients keep to -/

/-- The invariant of the two clients. -/
structure Fine (s : System) : Prop where
  sender : s.sender.Valid
  receiver : s.receiver.Valid
  senderKeeps : s.sender.cleansession = false
  receiverKeeps : s.receiver.cleansession = false
  noOutbound : s.receiver.outboundMsgs = []
  outbound : ∀ m ∈ s.sender.outboundMsgs,
    (Sent.publish (Clients.retryPublish m) true m.qos m.retain).Fits
  forward : ∀ p ∈ s.forward, p.IsForward
  back : ∀ p ∈ s.back, p.IsBack

/-- Steps of the exchange over connections that lose nothing until they break. -/
def Reliably (s s' : System) : Prop :=
  Relation.ReflTransGen Exchange.ReliableStep (s.exchange, s.up) (s'.exchange, s'.up)

variable {s s' : System} {p : Sent} {ps : List Sent} {now : ℕ} {e : Chance} {up : Bool}
  {res : Clients × CInt × List Sent}

/-! ## The receiver -/

/-- What a packet of the sender says. -/
theorem toForward_of_release {a : Ack} (hp : p.IsForward) (hpacket : p.packet = .ack a) :
    a.header.type = .pubrel ∧ a.header.dup = false ∧ p.toForward = some (.release a.msgId) := by
  cases p with
  | publish pack dup qos retained => cases hpacket
  | ack type msgid dup =>
      obtain ⟨rfl, rfl, -⟩ := hp
      cases hpacket
      exact ⟨rfl, rfl, rfl⟩

/-- The two bits of the header tell quality of service 2 from the others. -/
theorem publishHeader_qos {qos : CInt} (hqos : qos.toNat < 3) (dup : Bool) (retained : CInt) :
    (publishHeader dup qos retained).qos = 2 ↔ qos = 2 := by
  rw [publishHeader, ← BitVec.toNat_inj, ← BitVec.toNat_inj, BitVec.truncate_eq_setWidth,
    BitVec.toNat_setWidth,
    Nat.mod_eq_of_lt (by omega)]
  rfl

/-- What the receiver stores has the content that was sent. -/
theorem contentOf_inboundMessage (pack : Publish) (dup : Bool) (qos retained : CInt)
    (msgId topiclen : CInt) :
    (Clients.inboundMessage ⟨⟨pack.topic, pack.payload.take pack.payloadlen.toNat,
        .ofNat 32 (pack.payload.take pack.payloadlen.toNat).length, msgId⟩,
      publishHeader dup qos retained, topiclen⟩).content =
        contentOf pack.topic pack.payload pack.payloadlen retained := by
  have hlt : (pack.payload.take pack.payloadlen.toNat).length < 2 ^ 32 :=
    Nat.lt_of_le_of_lt (List.length_take_le _ _) pack.payloadlen.isLt
  have hretain : (if retained.getLsbD 0 then (1 : CInt) else 0).getLsbD 0 = retained.getLsbD 0 := by
    cases retained.getLsbD 0 <;> rfl
  simp only [StoredMessage.content, Clients.inboundMessage, contentOf, publishHeader,
    BitVec.toNat_ofNat,
    Nat.mod_eq_of_lt hlt, List.take_length]
  exact congrArg _ hretain

/-- What a publication of the sender says. -/
theorem toForward_of_publish {pack : PublishPacket} (hp : p.IsForward)
    (hpacket : p.packet = .publish pack) :
    p.toForward = if pack.header.qos = 2 then
      some (.publish pack.msgId (Clients.inboundMessage pack).content) else none := by
  cases p with
  | ack type msgid dup => cases hpacket
  | publish pub dup qos retained =>
      cases hpacket
      rw [Sent.toForward]
      by_cases hqos : qos = 2
      · rw [if_pos hqos, if_pos ((publishHeader_qos hp.1 dup retained).mpr hqos),
          contentOf_inboundMessage, hqos]
        rfl
      · rw [if_neg hqos, if_neg (mt (publishHeader_qos hp.1 dup retained).mp hqos)]

/-- What the receiver does, seen in the exchange. -/
theorem exchange_receiver (s : System) (c : Clients) (ps sent : List Sent) :
    { s with receiver := c, forward := ps, back := s.back ++ Exchange.pass up sent }.exchange =
      { s.exchange with
        held := heldOf c
        forward := ps.filterMap Sent.toForward
        replies := s.exchange.replies ++ Exchange.pass up (sent.filterMap Sent.toReply)
        delivered := (s.accepted ++ c.messageQueue).filterMap Clients.QEntry.delivered } := by
  have hpass : (Exchange.pass up sent).filterMap Sent.toReply =
      Exchange.pass up (sent.filterMap Sent.toReply) := by
    cases up <;> rfl
  rw [exchange, exchange, List.filterMap_append, hpass]
  rfl

/-- The channel takes what a write sends. -/
theorem pass_send {α : Type*} {f : Sent → Option α} (hup : up = true → (e.send p).1 ≠ socketError) :
    Exchange.pass up ((e.send p).2.filterMap f) = Exchange.pass up ([p].filterMap f) := by
  cases up with
  | false => rfl
  | true =>
      have hwrite : e.write ≠ .failed := mt Clients.rc_eq_socketError.mpr (hup rfl)
      rw [Chance.send, if_neg hwrite]

/-- A message that is released is delivered. -/
theorem releasedPublish_delivered {m : StoredMessage} (hm : Clients.InboundOk m) (c : Clients) :
    (c.processPublication (Clients.releasedPublish m)).messageQueue.filterMap
      Clients.QEntry.delivered =
      c.messageQueue.filterMap Clients.QEntry.delivered ++ [m.content] := by
  have hqos : ((m.qos.truncate 2).setWidth 32 : CInt) = 2 := by
    rw [hm.qos]
    rfl
  have hretain : (if m.retain.getLsbD 0 then (1 : CInt) else 0).getLsbD 0 = m.retain.getLsbD 0 := by
    cases m.retain.getLsbD 0 <;> rfl
  simp only [Clients.processPublication, Clients.releasedPublish, List.filterMap_append,
    List.filterMap_cons,
    List.filterMap_nil, Clients.QEntry.delivered, if_pos hqos, Clients.QEntry.content,
      StoredMessage.content, contentOf]
  exact congrArg (fun r => _ ++ [Content.mk _ _ r]) hretain

/-- What is passed on with another quality of service does not count as delivered. -/
theorem passedOn_delivered {pub : PublishPacket} (hqos : pub.header.qos ≠ 2) (c : Clients) :
    (c.processPublication pub).messageQueue.filterMap Clients.QEntry.delivered =
      c.messageQueue.filterMap Clients.QEntry.delivered := by
  have hne : (pub.header.qos.setWidth 32 : CInt) ≠ 2 := by
    revert hqos
    generalize pub.header.qos = q
    revert q
    decide
  simp only [Clients.processPublication, List.filterMap_append, List.filterMap_cons,
    List.filterMap_nil,
    Clients.QEntry.delivered, if_neg hne, List.append_nil]

/-- A message that is stored is held. -/
theorem heldOf_store (c : Clients) (m : StoredMessage) :
    heldOf { c with inboundMsgs := Clients.storeMessage m c.inboundMsgs } =
      Function.update (heldOf c) m.msgid (some m.content) := by
  funext j
  rw [heldOf, findMessage_storeMessage, Function.update_apply]
  split <;> rfl

/-- A message that is removed is not held any more. -/
theorem heldOf_remove {c : Clients} (hc : c.Valid) (pub : PublishPacket) (i : CInt) :
    heldOf { c.processPublication pub with inboundMsgs := Clients.removeMessage i c.inboundMsgs } =
      Function.update (heldOf c) i none := by
  funext j
  rw [heldOf, findMessage_removeMessage hc.inboundNodup, Function.update_apply]
  split <;> rfl

/-- **What the receiver does with a packet is a move of the exchange**, or it has no room for the
answer. -/
theorem receiver_moves (up : Bool) (hs : s.Fine) (hf : s.forward = p :: ps)
    (h : Clients.Handled s.receiver now e p.packet res) (hup : up = true → res.2.1 ≠ socketError) :
    res = (s.receiver, socketError, []) ∨ Relation.ReflTransGen (Exchange.Move up) s.exchange
      { s with
        receiver := res.1
        forward := ps
        back := s.back ++ Exchange.pass up res.2.2 }.exchange := by
  have hp : p.IsForward := hs.forward p (hf ▸ List.mem_cons_self)
  have hnothing : p.toForward = none → s.exchange.forward = ps.filterMap Sent.toForward :=
    fun hnone => by
    rw [exchange, hf, List.filterMap_cons_none hnone]
  have hfirst : ∀ {x}, p.toForward = some x →
      s.exchange.forward = x :: ps.filterMap Sent.toForward := fun hsome => by
    rw [exchange, hf, List.filterMap_cons_some hsome]
  generalize hpacket : p.packet = pack at h
  rw [exchange_receiver]
  cases h with
  | other hpack hack =>
      cases p
      · exact absurd hpacket.symm (hpack _)
      · exact absurd hpacket.symm (hack _)
  | @skipped pub hqos =>
      have hnone := toForward_of_publish hp hpacket
      rw [if_neg hqos] at hnone
      rw [List.filterMap_nil, Exchange.pass_nil, List.append_nil, ← hnothing hnone]
      exact Or.inr .refl
  | refused hpending => exact Or.inl rfl
  -- a message that was delivered before is released again: no PUBCOMP
  | @ignored a hnot hrel =>
      obtain ⟨htype, hdup, hfwd⟩ := toForward_of_release hp hpacket
      have hheld : heldOf s.receiver a.msgId = none := by rw [heldOf, hrel htype, Option.map_none]
      rw [List.filterMap_nil, Exchange.pass_nil, List.append_nil]
      exact Or.inr (.single (.unknown (hfirst hfwd) hheld))
  | @passedOn pub hqos rc sent hsent =>
      have hnone := toForward_of_publish hp hpacket
      rw [if_neg hqos] at hnone
      have hnoReply : sent.filterMap Sent.toReply = [] := by
        rw [List.filterMap_eq_nil_iff]
        intro x hx
        rw [hsent x hx]
        rfl
      rw [hnoReply, Exchange.pass_nil, List.append_nil, ← hnothing hnone, List.filterMap_append,
        passedOn_delivered hqos, ← List.filterMap_append]
      exact Or.inr .refl
  | @stored pub hqos =>
      have hfwd := toForward_of_publish hp hpacket
      rw [if_pos hqos] at hfwd
      rw [pass_send hup, heldOf_store]
      exact Or.inr (.single (.store (hfirst hfwd)))
  | @delivered a htype m hfind =>
      obtain ⟨-, -, hfwd⟩ := toForward_of_release hp hpacket
      have hheld : heldOf s.receiver a.msgId = some m.content := by
        rw [heldOf, hfind, Option.map_some]
      have hm := hs.receiver.inbound m (Clients.mem_of_findMessage hfind).1
      rw [pass_send hup, heldOf_remove hs.receiver, List.filterMap_append,
        releasedPublish_delivered hm,
        ← List.append_assoc, ← List.filterMap_append]
      exact Or.inr (.single (.deliver (hfirst hfwd) hheld))
  -- the library never sets the flag that an answer would need
  | @completed a htype hfind hdup =>
      obtain ⟨-, hdup', -⟩ := toForward_of_release hp hpacket
      rw [hdup'] at hdup
      cases hdup
  | @received a htype ha =>
      obtain ⟨htype', -, -⟩ := toForward_of_release hp hpacket
      rw [htype'] at htype
      cases htype
  | @ended a htype ha =>
      obtain ⟨htype', -, -⟩ := toForward_of_release hp hpacket
      rw [htype'] at htype
      rcases htype with htype | htype <;> cases htype

/-! ## The sender -/

/-- What the sender does, seen in the exchange. -/
theorem exchange_sender (up : Bool) (s : System) (c : Clients) (ps sent : List Sent) :
    { s with sender := c, forward := s.forward ++ Exchange.pass up sent, back := ps }.exchange =
      { s.exchange with
        inFlight := c.outboundMsgs.filterMap StoredMessage.toInFlight
        forward := s.exchange.forward ++ Exchange.pass up (sent.filterMap Sent.toForward)
        replies := ps.filterMap Sent.toReply } := by
  have hpass : (Exchange.pass up sent).filterMap Sent.toForward =
      Exchange.pass up (sent.filterMap Sent.toForward) := by
    cases up <;> rfl
  rw [exchange, exchange, List.filterMap_append, hpass]
  rfl

/-- What the sender waits for, for a message in flight. -/
theorem awaits_of_inFlight (hs : s.Fine) {x : InFlight CInt Content}
    (hx : x ∈ s.exchange.inFlight) :
    s.sender.Awaits x.id (if x.released then .pubcomp else .pubrec) := by
  obtain ⟨m, hm, hflight⟩ := List.mem_filterMap.mp hx
  have hfind := Clients.findMessage_of_mem hs.sender.nodup hm
  unfold StoredMessage.toInFlight at hflight
  split at hflight
  · next hqos =>
      cases hflight
      refine ⟨m, hfind, ?_⟩
      rcases (hs.sender.outbound m hm).next hqos with hnext | hnext
      all_goals
        rw [hnext]
        exact ⟨hqos, hnext⟩
  · cases hflight

/-- If the sender waits for a PUBREC or a PUBCOMP, a message of that id is in flight. -/
theorem inFlight_of_awaits {i : CInt} {type : MsgTypes} (htype : type = .pubrec ∨ type = .pubcomp)
    (h : s.sender.Awaits i type) :
    ∃ x ∈ s.exchange.inFlight, x.id = i ∧ x.released = decide (type = .pubcomp) := by
  obtain ⟨m, hfind, hexpects⟩ := h
  obtain ⟨hm, hid⟩ := Clients.mem_of_findMessage hfind
  have hboth : m.qos = 2 ∧ m.nextMessageType = some type := by
    rcases htype with rfl | rfl <;> exact hexpects
  refine ⟨⟨m.msgid, m.content, m.nextMessageType = some .pubcomp⟩,
    List.mem_filterMap.mpr ⟨m, hm, if_pos hboth.1⟩, hid, ?_⟩
  simp only [hboth.2, Option.some.injEq]

/-- A message of another quality of service is not in the exchange. -/
theorem removeOf_of_puback (hs : s.Fine) {i : CInt} (h : s.sender.Awaits i .puback) :
    Exchange.removeOf i s.exchange.inFlight = s.exchange.inFlight := by
  obtain ⟨m, hfind, hqos⟩ := h
  obtain ⟨hm, hid⟩ := Clients.mem_of_findMessage hfind
  refine List.filter_eq_self.mpr fun x hx => ?_
  obtain ⟨m', hm', hflight⟩ := List.mem_filterMap.mp hx
  have hne : x.id ≠ i := by
    intro hxi
    rw [toInFlight_id hflight, ← hid] at hxi
    obtain rfl := Clients.eq_of_msgid hs.sender.nodup hm hm' hxi
    have hqos : m'.qos = 1 := hqos
    rw [StoredMessage.toInFlight, if_neg (by rw [hqos]; decide)] at hflight
    cases hflight
  simpa using hne

/-- What an answer of the receiver says. -/
theorem toReply_of_back (hp : p.IsBack) : ∃ a : Ack, p.packet = .ack a ∧
    (a.header.type = .puback ∧ p.toReply = none ∨
      a.header.type = .pubrec ∧ p.toReply = some (.received a.msgId) ∨
      a.header.type = .pubcomp ∧ p.toReply = some (.complete a.msgId)) := by
  cases p with
  | publish pack dup qos retained => exact hp.elim
  | ack type msgid dup =>
      refine ⟨_, rfl, ?_⟩
      obtain ⟨htype, -⟩ := hp
      simp only [List.mem_cons, List.not_mem_nil, or_false] at htype
      rcases htype with rfl | rfl | rfl
      · exact Or.inl ⟨rfl, rfl⟩
      · exact Or.inr (Or.inl ⟨rfl, rfl⟩)
      · exact Or.inr (Or.inr ⟨rfl, rfl⟩)

/-- An answer that the sender does not wait for is one that the exchange ignores. -/
theorem ignored_of_not_awaits (hs : s.Fine) {a : Ack}
    (hnot : ¬ s.sender.Awaits a.msgId a.header.type)
    {r : Reply CInt} (hr : a.header.type = .pubrec ∧ r = .received a.msgId ∨
      a.header.type = .pubcomp ∧ r = .complete a.msgId) :
    ∀ x ∈ s.exchange.inFlight, r ≠ if x.released then .complete x.id else .received x.id := by
  intro x hx heq
  have hawaits := awaits_of_inFlight hs hx
  rcases hr with ⟨htype, rfl⟩ | ⟨htype, rfl⟩
  · split at heq
    · cases heq
    · next hreleased =>
        rw [if_neg hreleased, ← Reply.received.inj heq, ← htype] at hawaits
        exact hnot hawaits
  · split at heq
    · next hreleased =>
        rw [if_pos hreleased, ← Reply.complete.inj heq, ← htype] at hawaits
        exact hnot hawaits
    · cases heq

/-- **What the sender does with an answer is a move of the exchange.** -/
theorem sender_moves (up : Bool) (hs : s.Fine) (hb : s.back = p :: ps)
    (h : Clients.Handled s.sender now e p.packet res) (hup : up = true → res.2.1 ≠ socketError) :
    res = (s.sender, socketError, []) ∨ Relation.ReflTransGen (Exchange.Move up) s.exchange
      { s with
        sender := res.1
        forward := s.forward ++ Exchange.pass up res.2.2
        back := ps }.exchange := by
  obtain ⟨a, hpacket, hreply⟩ := toReply_of_back (hs.back p (hb ▸ List.mem_cons_self))
  have hnothing : p.toReply = none → s.exchange.replies = ps.filterMap Sent.toReply :=
    fun hnone => by
    rw [exchange, hb, List.filterMap_cons_none hnone]
  have hfirst : ∀ {x}, p.toReply = some x → s.exchange.replies = x :: ps.filterMap Sent.toReply :=
    fun hsome => by
    rw [exchange, hb, List.filterMap_cons_some hsome]
  rw [hpacket] at h
  rw [exchange_sender]
  cases h with
  | other hpack hack => exact absurd rfl (hack a)
  | refused hpending => exact Or.inl rfl
  | ignored hnot hrel =>
      rw [List.filterMap_nil, Exchange.pass_nil, List.append_nil]
      rcases hreply with ⟨htype, hnone⟩ | ⟨htype, hr⟩ | ⟨htype, hr⟩
      · rw [← hnothing hnone]
        exact Or.inr .refl
      · exact Or.inr (.single (.ignore (hfirst hr)
          (ignored_of_not_awaits hs (hnot (by simp [htype])) (Or.inl ⟨htype, rfl⟩))))
      · exact Or.inr (.single (.ignore (hfirst hr)
          (ignored_of_not_awaits hs (hnot (by simp [htype])) (Or.inr ⟨htype, rfl⟩))))
  | delivered htype hfind =>
      rcases hreply with ⟨htype', -⟩ | ⟨htype', -⟩ |
        ⟨htype', -⟩ <;> rw [htype'] at htype <;> cases htype
  | completed htype hfind hdup =>
      rcases hreply with ⟨htype', -⟩ | ⟨htype', -⟩ |
        ⟨htype', -⟩ <;> rw [htype'] at htype <;> cases htype
  | received htype ha =>
      have hr : p.toReply = some (.received a.msgId) := by
        rcases hreply with ⟨htype', -⟩ | ⟨-, hr⟩ | ⟨htype', -⟩
        · rw [htype'] at htype
          cases htype
        · exact hr
        · rw [htype'] at htype
          cases htype
      obtain ⟨x, hx, hid, hreleased⟩ := inFlight_of_awaits (Or.inl rfl) ha
      rw [← hid] at hr
      rw [pass_send hup, filterMap_acknowledge hs.sender.nodup, ← hid]
      exact Or.inr (.single (.release (hfirst hr) hx hreleased))
  | ended htype ha =>
      rw [List.filterMap_nil, Exchange.pass_nil, List.append_nil,
        filterMap_removeMessage hs.sender.nodup]
      rcases hreply with ⟨htype', hnone⟩ | ⟨htype', -⟩ | ⟨htype', hr⟩
      · rw [htype'] at ha
        have hsame : Exchange.removeOf a.msgId
            (s.sender.outboundMsgs.filterMap StoredMessage.toInFlight) =
            s.exchange.inFlight := removeOf_of_puback hs ha
        rw [← hnothing hnone, hsame]
        exact Or.inr .refl
      · rw [htype'] at htype
        rcases htype with htype | htype <;> cases htype
      · rw [htype'] at ha
        obtain ⟨x, hx, hid, hreleased⟩ := inFlight_of_awaits (Or.inr rfl) ha
        rw [← hid] at hr ⊢
        exact Or.inr (.single (.finish (hfirst hr) hx hreleased))

/-! ## Steps -/

/-- The connection breaks, and what one of the clients does then is not on its way any more. -/
theorem reliably_of_broken {e₁ : Exchange CInt Content} {f : List (Forward CInt Content)}
    {r : List (Reply CInt)}
    (h : Relation.ReflTransGen (Exchange.Move false) s.exchange e₁) (hf : f <+: e₁.forward)
    (hr : r <+: e₁.replies) (hexchange : s'.exchange = { e₁ with forward := f, replies := r })
    (hup : s'.up = false) : Reliably s s' := by
  have hbreak : Exchange.ReliableStep (s.exchange, s.up) (s.exchange, false) :=
    .disconnect List.prefix_rfl List.prefix_rfl
  have hlose : Exchange.ReliableStep (e₁, false) ({ e₁ with forward := f, replies := r }, false) :=
    .disconnect hf hr
  rw [Reliably, hexchange, hup]
  exact (Relation.ReflTransGen.single hbreak).trans ((Exchange.ReliableStep.moves h).tail hlose)

/-- The connection may break. -/
theorem reliably_and (e₁ : Exchange CInt Content) (up more : Bool) :
    Relation.ReflTransGen Exchange.ReliableStep (e₁, up) (e₁, up && more) := by
  cases more with
  | true =>
      rw [Bool.and_true]
  | false =>
      rw [Bool.and_false]
      exact .single (.disconnect List.prefix_rfl List.prefix_rfl)

/-- A step that the exchange does not see is none, or a connection that breaks. -/
theorem reliably_of_same {more : Bool} (hexchange : s'.exchange = s.exchange)
    (hup : s'.up = (s.up && more)) :
    Reliably s s' := by
  rw [Reliably, hexchange, hup]
  exact reliably_and _ _ _

/-- Closing a session that is kept closes the connection only. -/
theorem closeSession_kept {c : Clients} (hc : c.cleansession = false) :
    c.closeSession = { c with good := false, connected := false } := by
  unfold Clients.closeSession
  dsimp only
  rw [if_neg (by simp [hc])]

/-- Closing the session of the receiver. -/
theorem Fine.closeReceiver (hs : s.Fine) (hps : ∀ p ∈ ps, p.IsForward) :
    Fine { s with receiver := s.receiver.closeSession, up := false, forward := ps } := by
  refine ⟨hs.sender, hs.receiver.closeSession, hs.senderKeeps, ?_, ?_, hs.outbound, hps, hs.back⟩
  · rw [closeSession_kept hs.receiverKeeps]
    exact hs.receiverKeeps
  · rw [closeSession_kept hs.receiverKeeps]
    exact hs.noOutbound

/-- Closing the session of the sender. -/
theorem Fine.closeSender (hs : s.Fine) (hps : ∀ p ∈ ps, p.IsBack) :
    Fine { s with sender := s.sender.closeSession, up := false, back := ps } := by
  refine ⟨hs.sender.closeSession, hs.receiver, ?_, hs.receiverKeeps, hs.noOutbound, ?_, hs.forward,
    hps⟩
  · rw [closeSession_kept hs.senderKeeps]
    exact hs.senderKeeps
  · rw [closeSession_kept hs.senderKeeps]
    exact hs.outbound

/-- What the receiver answers, and what stays of it. -/
theorem receiver_answers (hs : s.Fine) (hp : p.IsForward)
    (h : Clients.Handled s.receiver now e p.packet res) :
    res.1.cleansession = false ∧ res.1.outboundMsgs = [] ∧ ∀ x ∈ res.2.2, x.IsBack := by
  have hkeeps := hs.receiverKeeps
  have hnone := hs.noOutbound
  generalize hpacket : p.packet = pack at h
  have hsend : ∀ {q : Sent}, q.IsBack → ∀ x ∈ (e.send q).2, x.IsBack := by
    intro q hq x hx
    rw [Chance.send] at hx
    dsimp only at hx
    split at hx
    · cases hx
    · rw [List.mem_singleton.mp hx]
      exact hq
  have hackid : ∀ {a : Ack}, p.packet = .ack a → a.msgId.toNat < 65536 := by
    intro a ha
    cases p with
    | publish pack dup qos retained => cases ha
    | ack type msgid dup =>
        cases ha
        exact hp.2.2
  have hpubid : ∀ {pub : PublishPacket}, p.packet = .publish pub → pub.msgId.toNat < 65536 := by
    intro pub hpub
    cases p with
    | ack type msgid dup => cases hpub
    | publish pack dup qos retained =>
        cases hpub
        dsimp only
        split
        · exact hp.2.2.1
        · decide
  cases h with
  | other hpack hack => exact ⟨hkeeps, hnone, List.forall_mem_nil _⟩
  | skipped hqos => exact ⟨hkeeps, hnone, List.forall_mem_nil _⟩
  | refused hpending => exact ⟨hkeeps, hnone, List.forall_mem_nil _⟩
  | ignored hnot hrel => exact ⟨hkeeps, hnone, List.forall_mem_nil _⟩
  | passedOn hqos rc hsent =>
      refine ⟨hkeeps, hnone, fun x hx => ?_⟩
      rw [hsent x hx]
      exact ⟨by decide, hpubid hpacket⟩
  | stored hqos => exact ⟨hkeeps, hnone, hsend ⟨by decide, hpubid hpacket⟩⟩
  | delivered htype hfind => exact ⟨hkeeps, hnone, hsend ⟨by decide, hackid hpacket⟩⟩
  | completed htype hfind hdup => exact ⟨hkeeps, hnone, hsend ⟨by decide, hackid hpacket⟩⟩
  | @received a htype ha =>
      obtain ⟨htype', -, -⟩ := toForward_of_release hp hpacket
      rw [htype'] at htype
      cases htype
  | @ended a htype ha =>
      obtain ⟨htype', -, -⟩ := toForward_of_release hp hpacket
      rw [htype'] at htype
      rcases htype with htype | htype <;> cases htype

theorem mem_pass {α : Type*} {x : α} {l : List α} (h : x ∈ Exchange.pass up l) : x ∈ l := by
  cases up with
  | false => cases h
  | true => exact h

/-- Reading a packet is a step of the exchange; so is closing the session after it. -/
theorem Fine.receiverReads (hs : s.Fine) (now : ℕ) (e : Chance) :
    (s.receiverReads now e).Fine ∧ Reliably s (s.receiverReads now e) := by
  unfold System.receiverReads
  rcases hf : s.forward with _ | ⟨p, ps⟩
  · exact ⟨hs, .refl⟩
  · dsimp only
    split
    · have h := hs.receiver.handled p.packet now e
      have hforward : ∀ q ∈ p :: ps, q.IsForward := hf ▸ hs.forward
      generalize s.receiver.cycle p.packet now e = res at h ⊢
      obtain ⟨hkeeps, hnone, hanswers⟩ := receiver_answers hs (hforward p List.mem_cons_self) h
      have hfine : ∀ up, Fine { s with
          receiver := res.1, forward := ps, back := s.back ++ Exchange.pass up res.2.2 } := by
        refine fun up => ⟨hs.sender, h.valid hs.receiver, hs.senderKeeps, hkeeps, hnone,
          hs.outbound,
          fun q hq => hforward q (List.mem_cons_of_mem _ hq), fun q hq => ?_⟩
        rcases List.mem_append.mp hq with hq | hq
        · exact hs.back q hq
        · exact hanswers q (mem_pass hq)
      split
      · have hclosed := (hfine false).closeReceiver (List.forall_mem_nil Sent.IsForward)
        rw [Exchange.pass_false, List.append_nil] at hclosed
        refine ⟨hclosed, ?_⟩
        rcases receiver_moves false hs hf h nofun with rfl | hmoves
        · refine reliably_of_broken .refl List.nil_prefix List.prefix_rfl ?_ rfl
          rw [exchange, closeSession_kept hkeeps]
          rfl
        · refine reliably_of_broken hmoves List.nil_prefix List.prefix_rfl ?_ rfl
          rw [exchange, exchange, closeSession_kept hkeeps, Exchange.pass_false, List.append_nil]
          rfl
      · next hrc =>
          refine ⟨hfine s.up, ?_⟩
          rcases receiver_moves s.up hs hf h fun _ => hrc with rfl | hmoves
          · exact absurd rfl hrc
          · exact Exchange.ReliableStep.moves hmoves
    · exact ⟨hs, .refl⟩

/-- What the sender answers, and what stays of it. -/
theorem sender_answers (hs : s.Fine) (hp : p.IsBack)
    (h : Clients.Handled s.sender now e p.packet res) :
    res.1.cleansession = false ∧ (∀ x ∈ res.2.2, x.IsForward) ∧
      ∀ m ∈ res.1.outboundMsgs,
      (Sent.publish (Clients.retryPublish m) true m.qos m.retain).Fits := by
  have hkeeps := hs.senderKeeps
  have hout := hs.outbound
  obtain ⟨a, hpacket, hreply⟩ := toReply_of_back hp
  have htype' : a.header.type ≠ .pubrel := by
    rcases hreply with ⟨htype, -⟩ | ⟨htype, -⟩ | ⟨htype, -⟩ <;> rw [htype] <;> decide
  rw [hpacket] at h
  cases h with
  | other hpack hack => exact ⟨hkeeps, List.forall_mem_nil _, hout⟩
  | refused hpending => exact ⟨hkeeps, List.forall_mem_nil _, hout⟩
  | ignored hnot hrel => exact ⟨hkeeps, List.forall_mem_nil _, hout⟩
  | delivered htype hfind => exact absurd htype htype'
  | completed htype hfind hdup => exact absurd htype htype'
  | received htype ha =>
      obtain ⟨m, hfind, -⟩ := ha
      obtain ⟨hm, hid⟩ := Clients.mem_of_findMessage hfind
      refine ⟨hkeeps, fun x hx => ?_, fun m' hm' => ?_⟩
      · rw [Chance.send] at hx
        dsimp only at hx
        split at hx
        · cases hx
        · rw [List.mem_singleton.mp hx, ← hid]
          exact ⟨rfl, rfl, Nat.lt_succ_of_le (hs.sender.outbound m hm).msgid.2⟩
      · rcases Clients.mem_updateMessage hm' with hm' | ⟨m'', hfind', rfl⟩
        · exact hout m' hm'
        · exact hout m'' (Clients.mem_of_findMessage hfind').1
  | ended htype ha => exact ⟨hkeeps, List.forall_mem_nil _,
    fun m hm => hout m (List.mem_of_mem_eraseP hm)⟩

/-- The sender reads a packet. -/
theorem Fine.senderReads (hs : s.Fine) (now : ℕ) (e : Chance) :
    (s.senderReads now e).Fine ∧ Reliably s (s.senderReads now e) := by
  unfold System.senderReads
  rcases hb : s.back with _ | ⟨p, ps⟩
  · exact ⟨hs, .refl⟩
  · dsimp only
    split
    · have h := hs.sender.handled p.packet now e
      have hback : ∀ q ∈ p :: ps, q.IsBack := hb ▸ hs.back
      generalize s.sender.cycle p.packet now e = res at h ⊢
      obtain ⟨hkeeps, hanswers, hout⟩ := sender_answers hs (hback p List.mem_cons_self) h
      have hfine : ∀ up, Fine { s with
          sender := res.1, forward := s.forward ++ Exchange.pass up res.2.2, back := ps } := by
        refine fun up => ⟨h.valid hs.sender, hs.receiver, hkeeps, hs.receiverKeeps, hs.noOutbound,
          hout,
          fun q hq => ?_, fun q hq => hback q (List.mem_cons_of_mem _ hq)⟩
        rcases List.mem_append.mp hq with hq | hq
        · exact hs.forward q hq
        · exact hanswers q (mem_pass hq)
      split
      · have hclosed := (hfine false).closeSender (List.forall_mem_nil Sent.IsBack)
        rw [Exchange.pass_false, List.append_nil] at hclosed
        refine ⟨hclosed, ?_⟩
        rcases sender_moves false hs hb h nofun with rfl | hmoves
        · refine reliably_of_broken .refl List.prefix_rfl List.nil_prefix ?_ rfl
          rw [exchange, closeSession_kept hkeeps]
          rfl
        · refine reliably_of_broken hmoves List.prefix_rfl List.nil_prefix ?_ rfl
          rw [exchange, exchange, closeSession_kept hkeeps, Exchange.pass_false, List.append_nil]
          rfl
      · next hrc =>
          refine ⟨hfine s.up, ?_⟩
          rcases sender_moves s.up hs hb h fun _ => hrc with rfl | hmoves
          · exact absurd rfl hrc
          · exact Exchange.ReliableStep.moves hmoves
    · exact ⟨hs, .refl⟩

/-! ## Sending again -/

section Retries

variable {msgs : List StoredMessage} {r : Clients × Bool × List Sent}

/-- A message that is sent again fits the format as it did before. -/
theorem fits_of_touched (hs : s.Fine) (htouched : msgs.map Clients.untouched =
    s.sender.outboundMsgs.map Clients.untouched) :
    ∀ m ∈ msgs, (Sent.publish (Clients.retryPublish m) true m.qos m.retain).Fits := by
  intro m hm
  have hmem : Clients.untouched m ∈ s.sender.outboundMsgs.map Clients.untouched :=
    htouched ▸ List.mem_map_of_mem hm
  obtain ⟨m', hm', heq⟩ := List.mem_map.mp hmem
  have hfits := hs.outbound m' hm'
  rw [Clients.untouched, Clients.untouched, StoredMessage.mk.injEq] at heq
  rw [Clients.retryPublish] at hfits ⊢
  rw [← heq.1]
  exact hfits

/-- What is sent again is fit for the receiver. -/
theorem isForward_of_retryPacket (hs : s.Fine)
    (hp : p ∈ s.sender.outboundMsgs.filterMap Clients.retryPacket) :
    p.IsForward := by
  obtain ⟨m, hm, hpacket⟩ := List.mem_filterMap.mp hp
  unfold Clients.retryPacket at hpacket
  split at hpacket
  · cases hpacket
    exact hs.outbound m hm
  · split at hpacket
    · cases hpacket
      exact ⟨rfl, rfl, Nat.lt_succ_of_le (hs.sender.outbound m hm).msgid.2⟩
    · cases hpacket

/-- What is sent again is due for some of the messages in flight. -/
theorem exists_resent (hs : s.Fine)
    (hsent : ps.Sublist (s.sender.outboundMsgs.filterMap Clients.retryPacket)) :
    ∃ xs : List (InFlight CInt Content), xs.Sublist s.exchange.inFlight ∧
      ps.filterMap Sent.toForward = xs.map (·.packet) := by
  have hsub := hsent.filterMap Sent.toForward
  rw [filterMap_retryPacket hs.sender.outbound] at hsub
  exact List.sublist_map_iff.mp hsub

/-- Sending again keeps the invariant. -/
theorem Fine.retried (hs : s.Fine) (h : Clients.Retried s.sender r msgs) :
    Fine { s with
        sender := r.1
        up := s.up && !r.2.1
        forward := s.forward ++ Exchange.pass s.up r.2.2 } ∧
      Reliably s { s with
        sender := r.1, up := s.up && !r.2.1, forward :=
          s.forward ++ Exchange.pass s.up r.2.2 } := by
  obtain ⟨hout, hclean⟩ := h.outboundMsgs hs.senderKeeps
  refine ⟨⟨h.valid hs.sender, hs.receiver, hclean, hs.receiverKeeps, hs.noOutbound, ?_, ?_,
    hs.back⟩, ?_⟩
  · dsimp only
    rw [hout]
    exact fits_of_touched hs h.touched
  · intro q hq
    rcases List.mem_append.mp hq with hq | hq
    · exact hs.forward q hq
    · exact isForward_of_retryPacket hs (h.sent.subset (mem_pass hq))
  · obtain ⟨xs, hxs, hpackets⟩ := exists_resent hs h.sent
    have hmoves := Exchange.moves_resend s.up s.exchange fun x hx => hxs.subset hx
    have hexchange : exchange { s with
        sender := r.1, up := s.up && !r.2.1, forward := s.forward ++ Exchange.pass s.up r.2.2 } =
        { s.exchange with
          forward := s.exchange.forward ++ Exchange.pass s.up (xs.map (·.packet)) } := by
      rw [← hpackets]
      have hsender := exchange_sender s.up s r.1 s.back r.2.2
      rw [hout, filterMap_touched h.touched] at hsender
      exact hsender
    have hreliable := Exchange.ReliableStep.moves hmoves
    rw [← hexchange] at hreliable
    exact hreliable.trans (reliably_and _ _ _)

end Retries

/-! ## New connections -/

section Connections

variable {clock : ℕ} {e' : ℕ → Chance}

/-- A CONNACK in a session that is kept opens the connection only. -/
theorem accepted_kept {c : Clients} (hc : c.cleansession = false) :
    c.accepted = { c with connected := true, good := true } := by
  unfold Clients.accepted
  dsimp only
  rw [if_neg (by simp [hc])]

/-- A client that has nothing in flight only takes its connection. -/
theorem connect_idle {c : Clients} (hclean : c.cleansession = false) (hc : c.outboundMsgs = []) :
    (c.connect clock e').1 = { c with connected := true, good := true } := by
  rw [← accepted_kept hclean]
  have hnil : c.accepted.outboundMsgs = [] := by rw [accepted_kept hclean, hc]
  have heq : c.connect clock e' = if c.accepted.outboundMsgs = [] then (c.accepted, false, []) else
      { c.accepted with outboundMsgs := c.accepted.outboundMsgs.map Clients.untouched }.retry 0
        clock true true e' :=
    rfl
  rw [heq, if_pos hnil]

/-- The system after a connection was made anew. -/
def connected (s : System) (c : Clients) (closed : Bool) (sent : List Sent) : System :=
  { s with
    sender := c
    receiver := { s.receiver with connected := true, good := true }
    up := !closed
    forward := sent
    back := [] }

variable {msgs : List StoredMessage} {r : Clients × Bool × List Sent}

/-- A CONNACK keeps the invariant. -/
theorem Fine.accepted (hs : s.Fine) : Fine { s with sender := s.sender.accepted } := by
  refine ⟨hs.sender.accepted, hs.receiver, ?_, hs.receiverKeeps, hs.noOutbound, ?_, hs.forward,
    hs.back⟩
  · rw [accepted_kept hs.senderKeeps]
    exact hs.senderKeeps
  · rw [accepted_kept hs.senderKeeps]
    exact hs.outbound

/-- The exchange does not see the CONNACK. -/
theorem exchange_accepted (hs : s.Fine) :
    exchange { s with sender := s.sender.accepted } = s.exchange := by
  rw [accepted_kept hs.senderKeeps]
  rfl

/-- A new connection keeps the invariant. -/
theorem Fine.connected (hs : s.Fine) (h : Clients.Retried s.sender.accepted r msgs) :
    (s.connected r.1 r.2.1 r.2.2).Fine := by
  obtain ⟨hout, hclean⟩ := h.outboundMsgs hs.accepted.senderKeeps
  refine ⟨h.valid hs.accepted.sender, ⟨hs.receiver.msgID, hs.receiver.outbound, hs.receiver.nodup,
    hs.receiver.inbound, hs.receiver.inboundNodup⟩, hclean, hs.receiverKeeps, hs.noOutbound, ?_, ?_,
    nofun⟩
  · rw [System.connected, hout]
    exact fits_of_touched hs.accepted h.touched
  · exact fun q hq => isForward_of_retryPacket hs.accepted (h.sent.subset hq)

/-- Over a new connection the sender sends everything in flight again, and nothing else is on its
way. -/
theorem exchange_connected (hs : s.Fine) (h : Clients.Retried s.sender.accepted r msgs) :
    (s.connected r.1 r.2.1 r.2.2).exchange =
      { s.exchange with forward := r.2.2.filterMap Sent.toForward, replies := [] } := by
  obtain ⟨hout, -⟩ := h.outboundMsgs hs.accepted.senderKeeps
  rw [← exchange_accepted hs, exchange, exchange, System.connected]
  dsimp only
  rw [hout, filterMap_touched h.touched]
  rfl

/-- A new connection loses what was on its way, and what is in flight is sent again as far as the
socket takes it. -/
theorem connected_steps (hs : s.Fine) (h : Clients.Retried s.sender.accepted r msgs) :
    Relation.ReflTransGen Exchange.Step s.exchange (s.connected r.1 r.2.1 r.2.2).exchange := by
  have hresent := exists_resent hs.accepted h.sent
  rw [exchange_accepted hs] at hresent
  obtain ⟨xs, hxs, hpackets⟩ := hresent
  have hlose : Exchange.Step s.exchange { s.exchange with forward := [], replies := [] } :=
    .lose (List.nil_sublist _) (List.nil_sublist _)
  have hmoves := Exchange.moves_resend true { s.exchange with forward := [], replies := [] }
    fun x hx => hxs.subset hx
  rw [exchange_connected hs h, hpackets]
  exact (Relation.ReflTransGen.single hlose).trans (hmoves.lift id fun _ _ => .move)

/-- If the socket is free each time, everything that is in flight is sent again. -/
theorem connected_reliably (hs : s.Fine) (hfree : ∀ n, (e' n).noPendingWrites = true) {clock : ℕ}
    (hr : r = s.sender.connect clock e') (h : Clients.Retried s.sender.accepted r msgs) :
    Reliably s (s.connected r.1 r.2.1 r.2.2) := by
  obtain ⟨hstart, hall⟩ := Clients.connect_regardless s.sender clock hfree
  rw [← hr] at hstart hall
  have hresent := filterMap_retryPacket hs.accepted.sender.outbound
  have hinFlight : s.sender.accepted.outboundMsgs.filterMap StoredMessage.toInFlight =
      s.exchange.inFlight := by
    rw [accepted_kept hs.senderKeeps]
    rfl
  rw [hinFlight] at hresent
  have hconnect : Exchange.ReliableStep (s.exchange, s.up)
      ({ s.exchange with forward := s.exchange.inFlight.map (·.packet), replies := [] }, true) :=
        .connect
  rw [Reliably, exchange_connected hs h]
  cases hclosed : r.2.1 with
  | false =>
      rw [hall hclosed, hresent]
      simpa [System.connected] using Relation.ReflTransGen.single hconnect
  | true =>
      have hsome := hstart.filterMap Sent.toForward
      rw [hresent] at hsome
      have hbreak : Exchange.ReliableStep
          ({ s.exchange with forward := s.exchange.inFlight.map (·.packet), replies := [] }, true)
          ({ s.exchange with forward := r.2.2.filterMap Sent.toForward, replies := [] }, false) :=
        .disconnect hsome List.prefix_rfl
      simpa [System.connected] using (Relation.ReflTransGen.single hconnect).tail hbreak

end Connections

/-! ## Publishing -/

/-- What the application asks of the sender keeps to the limits of the format. -/
def Action.Fits : Action → Prop
  | .publish topicName payloadlen payload qos retained _ _ =>
      (Sent.publish ⟨topicName, payload, payloadlen, 0⟩ false qos retained).Fits
  | _ => True

instance : DecidablePred Action.Fits
  | .publish topicName payloadlen payload qos retained _ _ =>
      inferInstanceAs (Decidable
        (Sent.publish ⟨topicName, payload, payloadlen, 0⟩ false qos retained).Fits)
  | .senderReads _ _ => .isTrue trivial
  | .receiverReads _ _ => .isTrue trivial
  | .retry _ _ _ _ _ => .isTrue trivial
  | .disconnect => .isTrue trivial
  | .senderCloses => .isTrue trivial
  | .receiverCloses => .isTrue trivial
  | .connect _ _ _ => .isTrue trivial
  | .messageArrived _ => .isTrue trivial

section Publishing

variable {topicName payload : CString} {payloadlen qos retained : CInt} {clock : ℕ} {i : CInt}

/-- What a write sends is fit for the receiver if its packet is. -/
theorem isForward_of_send (hp : p.IsForward) : ∀ q ∈ (e.send p).2, q.IsForward := by
  intro q hq
  rw [Chance.send] at hq
  dsimp only at hq
  split at hq
  · cases hq
  · rw [List.mem_singleton.mp hq]
    exact hp

/-- The id that is assigned fits the format. -/
theorem fits_publishPack (dup : Bool)
    (h : (Sent.publish ⟨topicName, payload, payloadlen, 0⟩ false qos retained).Fits)
    (hi : i.toNat < 65536) :
    (Sent.publish (Clients.publishPack topicName payloadlen payload i) dup qos retained).Fits := by
  obtain ⟨hqos, htopic, -, hpos, hlen, hfits⟩ := h
  refine ⟨hqos, htopic, hi, hpos, ?_, hfits⟩
  have hpos : 0 ≤ payloadlen.toInt := hpos
  have hlen : payloadlen.toInt ≤ payload.length := hlen
  rw [Clients.publishPack]
  dsimp only
  split
  · have hnat : payloadlen.toInt = payloadlen.toNat := by
      rw [BitVec.toInt_eq_toNat_cond] at hpos ⊢
      split <;> omega
    rw [List.length_take]
    omega
  · omega

/-- Closing the session of the sender if the write failed. -/
theorem Fine.afterWrite (hs : s.Fine) (e : Chance) :
    Fine { s with sender := s.sender.afterWrite e, up := s.up && e.write ≠ .failed } := by
  unfold Clients.afterWrite
  split
  · next hfailed =>
      have hup : (s.up && decide (e.write ≠ .failed)) = false := by simp [hfailed]
      rw [hup]
      exact hs.closeSender hs.back
  · exact ⟨hs.sender, hs.receiver, hs.senderKeeps, hs.receiverKeeps, hs.noOutbound, hs.outbound,
      hs.forward, hs.back⟩

/-- The exchange does not see a connection that ends. -/
theorem exchange_afterWrite (hs : s.Fine) (e : Chance) (up : Bool) :
    exchange { s with sender := s.sender.afterWrite e, up := up } = s.exchange := by
  unfold Clients.afterWrite
  split
  · rw [closeSession_kept hs.senderKeeps]
    rfl
  · rfl

theorem Fine.withUp (hs : s.Fine) (up : Bool) : Fine { s with up := up } :=
  ⟨hs.sender, hs.receiver, hs.senderKeeps, hs.receiverKeeps, hs.noOutbound, hs.outbound, hs.forward,
    hs.back⟩

/-- The system when the sender's packets were given to the connection. -/
def passOn (s : System) (sent : List Sent) : System :=
  { s with forward := s.forward ++ Exchange.pass s.up sent }

/-- Giving a packet to the connection keeps the invariant. -/
theorem Fine.passOn (hs : s.Fine) (hp : p.IsForward) (e : Chance) :
    (s.passOn (e.send p).2).Fine := by
  refine ⟨hs.sender, hs.receiver, hs.senderKeeps, hs.receiverKeeps, hs.noOutbound, hs.outbound, ?_,
    hs.back⟩
  intro q hq
  rcases List.mem_append.mp hq with hq | hq
  · exact hs.forward q hq
  · exact isForward_of_send hp q (mem_pass hq)

/-- The exchange does not see what is not about quality of service 2. -/
theorem exchange_passOn {sent : List Sent} (h : sent.filterMap Sent.toForward = []) :
    (s.passOn sent).exchange = s.exchange := by
  have hsender := exchange_sender s.up s s.sender s.back sent
  rw [h, Exchange.pass_nil, List.append_nil] at hsender
  exact hsender

/-- The system when a message was put in flight, and its packet was given to the socket. -/
def submitted (s : System) (up : Bool) (i : CInt) (m : StoredMessage) (e : Chance) : System :=
  { s with
    sender := { s.sender with msgID := i, outboundMsgs := s.sender.outboundMsgs ++ [m] }
    forward := s.forward ++
      Exchange.pass up (e.send (.publish (Clients.retryPublish m) false m.qos m.retain)).2
    published := if m.qos = 2 then s.published ++ [m.content] else s.published }

/-- A publication is submitted to the exchange. -/
theorem exchange_submitted (s : System) (i : CInt) (m : StoredMessage)
    (hup : up = true → e.write ≠ .failed) :
    (s.submitted up i m e).exchange = { s.exchange with
      inFlight := s.exchange.inFlight ++ [m].filterMap StoredMessage.toInFlight
      forward := s.exchange.forward ++
        Exchange.pass up ([Sent.publish (Clients.retryPublish m) false m.qos m.retain].filterMap
        Sent.toForward)
      submitted := if m.qos = 2 then s.published ++ [m.content] else s.published } := by
  have hwrite : up = true →
      (e.send (.publish (Clients.retryPublish m) false m.qos m.retain)).1 ≠ socketError :=
    fun htrue => mt Clients.rc_eq_socketError.mp (hup htrue)
  have hpass : (Exchange.pass up
      (e.send (.publish (Clients.retryPublish m) false m.qos m.retain)).2).filterMap
      Sent.toForward = Exchange.pass up
        ((e.send (.publish (Clients.retryPublish m) false m.qos m.retain)).2.filterMap
          Sent.toForward) := by
    cases up <;> rfl
  rw [exchange, exchange, submitted]
  dsimp only
  rw [List.filterMap_append, List.filterMap_append, hpass, pass_send hwrite]
  rfl

/-- Putting a message in flight is a move of the exchange if its quality of service is 2. -/
theorem submitted_moves {m : StoredMessage} (up : Bool) (e : Chance) (i : CInt)
    (hfree : ∀ m' ∈ s.sender.outboundMsgs, m'.msgid ≠ m.msgid)
    (hnext : m.qos = 2 → m.nextMessageType = some .pubrec) (hup : up = true → e.write ≠ .failed) :
    Relation.ReflTransGen (Exchange.Move up) s.exchange (s.submitted up i m e).exchange := by
  rw [exchange_submitted s i m hup]
  by_cases hqos : m.qos = 2
  · have hflight : m.toInFlight = some ⟨m.msgid, m.content, false⟩ := by
      rw [StoredMessage.toInFlight, if_pos hqos, hnext hqos]
      rfl
    have hforward : (Sent.publish (Clients.retryPublish m) false m.qos m.retain).toForward =
        some (.publish m.msgid m.content) := if_pos hqos
    rw [List.filterMap_cons_some hflight, List.filterMap_cons_some hforward, List.filterMap_nil,
      List.filterMap_nil, if_pos hqos]
    refine .single (.submit fun x hx => ?_)
    obtain ⟨m', hm', hx⟩ := List.mem_filterMap.mp hx
    rw [toInFlight_id hx]
    exact hfree m' hm'
  · have hflight : m.toInFlight = none := if_neg hqos
    have hforward : (Sent.publish (Clients.retryPublish m) false m.qos m.retain).toForward = none :=
      if_neg hqos
    rw [List.filterMap_cons_none hflight, List.filterMap_cons_none hforward, List.filterMap_nil,
      List.filterMap_nil,
      Exchange.pass_nil, List.append_nil, List.append_nil, if_neg hqos]
    exact .refl

/-- A publication keeps the invariant. -/
theorem Fine.submitted (hs : s.Fine) {m : StoredMessage} (hid : m.msgid = i)
    (hm : Clients.OutboundOk m)
    (hfree : ∀ m' ∈ s.sender.outboundMsgs, m'.msgid ≠ m.msgid)
    (hfits : ∀ dup, (Sent.publish (Clients.retryPublish m) dup m.qos m.retain).Fits) (up : Bool)
    (e : Chance) :
    (s.submitted up i m e).Fine := by
  subst hid
  refine ⟨⟨hm.msgid.2, ?_, ?_, hs.sender.inbound, hs.sender.inboundNodup⟩, hs.receiver,
    hs.senderKeeps,
    hs.receiverKeeps, hs.noOutbound, ?_, ?_, hs.back⟩
  · intro m' hm'
    rcases List.mem_append.mp hm' with hm' | hm'
    · exact hs.sender.outbound m' hm'
    · rw [List.mem_singleton.mp hm']
      exact hm
  · rw [System.submitted, List.map_append, List.map_singleton, List.nodup_append]
    refine ⟨hs.sender.nodup, List.nodup_singleton _, ?_⟩
    rintro j hj j' hj' rfl
    obtain ⟨m', hm', hid⟩ := List.mem_map.mp hj
    exact hfree m' hm' (hid.trans (List.mem_singleton.mp hj'))
  · intro m' hm'
    rcases List.mem_append.mp hm' with hm' | hm'
    · exact hs.outbound m' hm'
    · rw [List.mem_singleton.mp hm']
      exact hfits true
  · have hpacket : (Sent.publish (Clients.retryPublish m) false m.qos m.retain).IsForward :=
      hfits false
    intro q hq
    rcases List.mem_append.mp hq with hq | hq
    · exact hs.forward q hq
    · exact isForward_of_send hpacket q (mem_pass hq)

/-- Putting a message in flight, and closing the session if its write failed. -/
theorem submitted_reliably {m : StoredMessage} (hfine : (s.submitted s.up i m e).Fine)
    (hfree : ∀ m' ∈ s.sender.outboundMsgs, m'.msgid ≠ m.msgid)
    (hnext : m.qos = 2 → m.nextMessageType = some .pubrec) :
    Reliably s { s.submitted s.up i m e with
      sender := (s.submitted s.up i m e).sender.afterWrite e
      up := (s.submitted s.up i m e).up && e.write ≠ .failed } := by
  have hexchange := exchange_afterWrite hfine e ((s.submitted s.up i m e).up && e.write ≠ .failed)
  by_cases hwrite : e.write = .failed
  · have hup : ((s.submitted s.up i m e).up && decide (e.write ≠ .failed)) = false := by
      simp [hwrite]
    have hlost : s.submitted s.up i m e = s.submitted false i m e := by
      rw [System.submitted, System.submitted, Chance.send, if_pos hwrite, Exchange.pass_nil,
        Exchange.pass_nil]
    have hmoves := submitted_moves false e i hfree hnext fun hup => absurd hup Bool.false_ne_true
    rw [← hlost] at hmoves
    exact reliably_of_broken hmoves List.prefix_rfl List.prefix_rfl hexchange hup
  · have hmoves := submitted_moves s.up e i hfree hnext fun _ => hwrite
    have hreliable := (Exchange.ReliableStep.moves hmoves).trans
        (reliably_and _ _ (decide (e.write ≠ .failed)))
    rw [← hexchange] at hreliable
    exact hreliable

/-- A publish is a step of the exchange. -/
theorem Fine.publish (hs : s.Fine)
    (hfits : (Sent.publish ⟨topicName, payload, payloadlen, 0⟩ false qos retained).Fits)
    (h : s.publish topicName payloadlen payload qos retained clock e = .ok s') :
    s'.Fine ∧ Reliably s s' := by
  unfold System.publish at h
  split at h
  · rcases hpublish : s.sender.publish topicName payloadlen payload qos retained clock e with _ |
      ⟨c, rc, sent⟩
    · simp only [hpublish] at h
      cases h
    · simp only [hpublish] at h
      rcases Clients.publish_spec hpublish with
        ⟨-, rfl, rfl, rfl⟩ | ⟨hqos, rfl, rfl⟩ | ⟨hqos, hrc, i, hrange, hfree, rfl, rfl⟩
      · rw [if_neg fun h => h.2 rfl, Exchange.pass_nil, List.append_nil] at h
        cases h
        exact ⟨hs.withUp _, reliably_of_same rfl rfl⟩
      · have hne : qos ≠ 2 := by
          rintro rfl
          exact hqos (by decide)
        rw [if_neg fun h => absurd h.1 hne] at h
        cases h
        have hpacket : (Sent.publish (Clients.publishPack topicName payloadlen payload 0) false qos
          retained).IsForward := fits_publishPack false hfits (by decide)
        have hnone : (e.send
            (.publish (Clients.publishPack topicName payloadlen payload 0) false qos
            retained)).2.filterMap Sent.toForward = [] := by
          rw [List.filterMap_eq_nil_iff]
          intro q hq
          rw [Chance.send] at hq
          dsimp only at hq
          split at hq
          · cases hq
          · rw [List.mem_singleton.mp hq]
            exact if_neg hne
        have hsend := hs.passOn hpacket e
        exact ⟨hsend.afterWrite e,
          reliably_of_same ((exchange_afterWrite hsend e _).trans (exchange_passOn hnone)) rfl⟩
      · -- the message that is put in flight
        obtain ⟨m, hm⟩ : ∃ m, m = Clients.createMessage
          (Clients.publishPack topicName payloadlen payload i) qos retained clock := ⟨_, rfl⟩
        have hpublished : (if qos = 2 ∧ rc ≠ mqttClientMaxMessagesInflight then
            s.published ++ [contentOf topicName
              (Clients.publishPack topicName payloadlen payload 0).payload
              payloadlen retained] else s.published) =
            if m.qos = 2 then s.published ++ [m.content] else s.published := by
          rw [hm]
          simp only [hrc, ne_eq, not_false_eq_true, and_true]
          rfl
        have hsubmitted : s' = { s.submitted s.up i m e with
            sender := (s.submitted s.up i m e).sender.afterWrite e
            up := (s.submitted s.up i m e).up && e.write ≠ .failed } := by
          rw [hpublished] at h
          cases h
          rw [hm]
          rfl
        have hi := hrange hs.sender.msgID
        have hid : m.msgid = i := by rw [hm]; rfl
        have hok : Clients.OutboundOk m := by
          rw [hm]
          exact ⟨hi, hqos, fun htwo => Or.inl (if_pos htwo), fun hne => if_neg hne⟩
        have hfit : ∀ dup, (Sent.publish (Clients.retryPublish m) dup m.qos m.retain).Fits :=
          fun dup => by
          rw [hm]
          exact fits_publishPack dup hfits (Nat.lt_succ_of_le hi.2)
        rw [← hid] at hfree
        have hnext : m.qos = 2 → m.nextMessageType = some .pubrec := fun htwo => by
          rw [hm] at htwo ⊢
          exact if_pos htwo
        have hfine := hs.submitted hid hok hfree hfit s.up e
        subst hsubmitted
        exact ⟨hfine.afterWrite e, submitted_reliably hfine hfree hnext⟩
  · cases h
    exact ⟨hs, .refl⟩

end Publishing

end System
