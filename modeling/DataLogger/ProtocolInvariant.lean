/-
# What always holds of a client

Whatever its peer sends, and however its connections end, a client has an id of its own for
each message in flight, and for each message that it holds until it is released.

* `Clients.valid_run` : the invariant of every run;
* `Clients.inFlight_until_acknowledged` : what alone ends the exchange of a message in flight.
-/
import DataLogger.MqttProtocol
import DataLogger.MessageIds

namespace Clients

/-! ## Lists of messages with different ids -/

section Lists

variable {msgs : List StoredMessage} {m m' : StoredMessage} {i j : CInt}
    {f : StoredMessage → StoredMessage}

/-- What is found is in the list, under the id. -/
theorem mem_of_findMessage (h : findMessage i msgs = some m) : m ∈ msgs ∧ m.msgid = i := by
  have hid := List.find?_some h
  exact ⟨List.mem_of_find?_eq_some h, by simpa using hid⟩

/-- Nothing is found exactly if no message has the id. -/
theorem findMessage_eq_none : findMessage i msgs = none ↔ ∀ m ∈ msgs, m.msgid ≠ i := by
  rw [findMessage, List.find?_eq_none]
  simp

/-- The message of an id is found, since no two have the same one. -/
theorem findMessage_of_mem (hmsgs : (msgs.map (·.msgid)).Nodup) (hm : m ∈ msgs) :
    findMessage m.msgid msgs = some m := by
  induction msgs with
  | nil => cases hm
  | cons m' msgs ih =>
      obtain ⟨hne, hmsgs⟩ := List.nodup_cons.mp hmsgs
      rcases List.mem_cons.mp hm with rfl | hm
      · exact List.find?_cons_of_pos (by simp)
      · have hid : m'.msgid ≠ m.msgid := fun h => hne (List.mem_map.mpr ⟨m, hm, h.symm⟩)
        rw [findMessage, List.find?_cons_of_neg (by simpa using hid)]
        exact ih hmsgs hm

/-- Messages of one list with one id are the same. -/
theorem eq_of_msgid (hmsgs : (msgs.map (·.msgid)).Nodup) (hm : m ∈ msgs) (hm' : m' ∈ msgs)
    (hid : m'.msgid = m.msgid) : m' = m := by
  have hfind := findMessage_of_mem hmsgs hm'
  rw [hid, findMessage_of_mem hmsgs hm] at hfind
  exact (Option.some.inj hfind).symm

/-- Removing the message of an id leaves those of the other ids. -/
theorem removeMessage_eq (hmsgs : (msgs.map (·.msgid)).Nodup) :
    removeMessage i msgs = msgs.filter fun m => m.msgid ≠ i := by
  induction msgs with
  | nil => rfl
  | cons m msgs ih =>
      obtain ⟨hne, hmsgs⟩ := List.nodup_cons.mp hmsgs
      rw [removeMessage] at ih ⊢
      by_cases hm : m.msgid = i
      · have hall : ∀ m' ∈ msgs, m'.msgid ≠ i := fun m' hm' h =>
          hne (List.mem_map.mpr ⟨m', hm', h.trans hm.symm⟩)
        rw [List.eraseP_cons_of_pos (by simpa using hm),
          List.filter_cons_of_neg (by simpa using hm),
          List.filter_eq_self.mpr fun m' hm' => by simpa using hall m' hm']
      · rw [List.eraseP_cons_of_neg (by simpa using hm),
          List.filter_cons_of_pos (by simpa using hm),
          ih hmsgs]

/-- Writing to a message changes no id. -/
theorem map_msgid_updateMessage (hf : ∀ m, m.msgid = i → (f m).msgid = i) :
    (updateMessage i f msgs).map (·.msgid) = msgs.map (·.msgid) := by
  induction msgs with
  | nil => rfl
  | cons m msgs ih =>
      rw [updateMessage]
      split
      · next hm => rw [List.map_cons, List.map_cons, hf m hm, hm]
      · rw [List.map_cons, List.map_cons, ih]

/-- Writing to the message of an id leaves those of the other ids. -/
theorem updateMessage_eq (hmsgs : (msgs.map (·.msgid)).Nodup) :
    updateMessage i f msgs = msgs.map fun m => if m.msgid = i then f m else m := by
  induction msgs with
  | nil => rfl
  | cons m msgs ih =>
      obtain ⟨hne, hmsgs⟩ := List.nodup_cons.mp hmsgs
      rw [updateMessage, List.map_cons]
      by_cases hm : m.msgid = i
      · have hall : ∀ m' ∈ msgs, m'.msgid ≠ i := fun m' hm' h =>
          hne (List.mem_map.mpr ⟨m', hm', h.trans hm.symm⟩)
        rw [if_pos hm, if_pos hm, List.map_congr_left fun m' hm' => if_neg (hall m' hm'),
          List.map_id']
      · rw [if_neg hm, if_neg hm, ih hmsgs]

/-- What is in the list after a write was there before, or is what was written. -/
theorem mem_updateMessage (h : m ∈ updateMessage i f msgs) :
    m ∈ msgs ∨ ∃ m', findMessage i msgs = some m' ∧ m = f m' := by
  induction msgs with
  | nil => cases h
  | cons m' msgs ih =>
      rw [updateMessage] at h
      split at h
      · next hm =>
          rcases List.mem_cons.mp h with rfl | h
          · exact Or.inr ⟨m', List.find?_cons_of_pos (by simpa using hm), rfl⟩
          · exact Or.inl (List.mem_cons_of_mem _ h)
      · next hm =>
          rcases List.mem_cons.mp h with rfl | h
          · exact Or.inl List.mem_cons_self
          · rcases ih h with h | ⟨m'', hfind, rfl⟩
            · exact Or.inl (List.mem_cons_of_mem _ h)
            · refine Or.inr ⟨m'', ?_, rfl⟩
              rw [findMessage, List.find?_cons_of_neg (by simpa using hm)]
              exact hfind

end Lists

/-! ## The invariant -/

/-- A message in flight has an id that a packet can carry, and waits for an answer that its quality
of service has. -/
structure OutboundOk (m : StoredMessage) : Prop where
  msgid : 0 < m.msgid.toNat ∧ m.msgid.toNat ≤ 65535
  qos : 0 < m.qos.toInt
  next : m.qos = 2 → m.nextMessageType = some .pubrec ∨ m.nextMessageType = some .pubcomp
  other : m.qos ≠ 2 → m.nextMessageType = none

/-- A message that is held waits for its release. -/
structure InboundOk (m : StoredMessage) : Prop where
  qos : m.qos = 2
  next : m.nextMessageType = some .pubrel

/-- The invariant of a client. -/
structure Valid (c : Clients) : Prop where
  msgID : c.msgID.toNat ≤ 65535
  outbound : ∀ m ∈ c.outboundMsgs, OutboundOk m
  nodup : (c.outboundMsgs.map (·.msgid)).Nodup
  inbound : ∀ m ∈ c.inboundMsgs, InboundOk m
  inboundNodup : (c.inboundMsgs.map (·.msgid)).Nodup

variable {c c' : Clients}

/-- The lists are valid when a session has been emptied. -/
theorem valid_cleanSession : c.cleanSession.Valid :=
  ⟨Nat.zero_le _, nofun, List.nodup_nil, nofun, List.nodup_nil⟩

/-- Closing the session keeps the lists valid. -/
theorem Valid.closeSession (h : c.Valid) : c.closeSession.Valid := by
  obtain ⟨hid, hout, hnodup, hin, hinNodup⟩ := h
  rw [Clients.closeSession]
  dsimp only
  split
  · exact valid_cleanSession
  · exact ⟨hid, hout, hnodup, hin, hinNodup⟩

/-- Removing a message in flight keeps the lists valid. -/
theorem Valid.removeOutbound (h : c.Valid) (i : CInt) :
    Valid { c with outboundMsgs := removeMessage i c.outboundMsgs } where
  msgID := h.msgID
  outbound := fun m hm => h.outbound m (List.mem_of_mem_eraseP hm)
  nodup := h.nodup.sublist (List.eraseP_sublist.map _)
  inbound := h.inbound
  inboundNodup := h.inboundNodup

/-- Removing a message that is held keeps the lists valid. -/
theorem Valid.removeInbound (h : c.Valid) (i : CInt) :
    Valid { c with inboundMsgs := removeMessage i c.inboundMsgs } where
  msgID := h.msgID
  outbound := h.outbound
  nodup := h.nodup
  inbound := fun m hm => h.inbound m (List.mem_of_mem_eraseP hm)
  inboundNodup := h.inboundNodup.sublist (List.eraseP_sublist.map _)

/-- Passing a publication on keeps the lists valid. -/
theorem Valid.processPublication (h : c.Valid) (p : PublishPacket) :
    (c.processPublication p).Valid :=
  ⟨h.msgID, h.outbound, h.nodup, h.inbound, h.inboundNodup⟩

/-- The list of held messages with one more, in the place of that with its id if there is one. -/
def storeMessage (m : StoredMessage) (msgs : List StoredMessage) : List StoredMessage :=
  match findMessage m.msgid msgs with
  | some _ => updateMessage m.msgid (fun _ => m) msgs
  | none => msgs ++ [m]

/-- Storing a publication keeps one message of an id. -/
theorem Valid.storeInbound (h : c.Valid) {m : StoredMessage} (hm : InboundOk m) :
    Valid { c with inboundMsgs := storeMessage m c.inboundMsgs } := by
  rcases hfind : findMessage m.msgid c.inboundMsgs with _ | m'
  · simp only [storeMessage, hfind]
    refine ⟨h.msgID, h.outbound, h.nodup, ?_, ?_⟩
    · intro m' hm'
      rcases List.mem_append.mp hm' with hm' | hm'
      · exact h.inbound m' hm'
      · rw [List.mem_singleton.mp hm']
        exact hm
    · rw [List.map_append, List.map_singleton, List.nodup_append]
      refine ⟨h.inboundNodup, List.nodup_singleton _, ?_⟩
      rintro i hi j hj rfl
      obtain ⟨m', hm', hid⟩ := List.mem_map.mp hi
      exact findMessage_eq_none.mp hfind m' hm' (hid.trans (List.mem_singleton.mp hj))
  · simp only [storeMessage, hfind]
    refine ⟨h.msgID, h.outbound, h.nodup, ?_, ?_⟩
    · intro m'' hm''
      rcases mem_updateMessage hm'' with hm'' | ⟨_, -, rfl⟩
      · exact h.inbound m'' hm''
      · exact hm
    · rw [map_msgid_updateMessage fun _ _ => rfl]
      exact h.inboundNodup

/-! ## The handlers -/

/-- The packet of the given type is the next answer to a message in flight. -/
def Expects (m : StoredMessage) : MsgTypes → Prop
  | .puback => m.qos = 1
  | type => m.qos = 2 ∧ m.nextMessageType = some type

/-- The message in flight with the id `i` waits for an answer of the given type. -/
def Awaits (c : Clients) (i : CInt) (type : MsgTypes) : Prop :=
  ∃ m, findMessage i c.outboundMsgs = some m ∧ Expects m type

section Handlers

variable {a : Ack} {p : PublishPacket} {m : StoredMessage} {now : ℕ} {e : Chance}

/-- A PUBACK that is waited for ends the exchange. -/
theorem handlePubacks_of_awaits (ha : c.Awaits a.msgId .puback) : c.handlePubacks a =
    ({ c with outboundMsgs := removeMessage a.msgId c.outboundMsgs }, 0, []) := by
  obtain ⟨m, hfind, hqos⟩ := ha
  have hqos : m.qos = 1 := hqos
  simp only [handlePubacks, hfind, hqos, ne_eq, not_true_eq_false, if_false]

/-- Any other PUBACK changes nothing. -/
theorem handlePubacks_of_not_awaits (ha : ¬ c.Awaits a.msgId .puback) :
    c.handlePubacks a = (c, 0, []) := by
  rcases hfind : findMessage a.msgId c.outboundMsgs with _ | m
  · simp only [handlePubacks, hfind]
  · have hqos : m.qos ≠ 1 := fun hqos => ha ⟨m, hfind, hqos⟩
    simp only [handlePubacks, hfind, if_pos hqos]

/-- A PUBREC that is waited for is answered by a PUBREL. -/
theorem handlePubrecs_of_awaits (ha : c.Awaits a.msgId .pubrec) : c.handlePubrecs a now e =
    ({ c with outboundMsgs := updateMessage a.msgId (acknowledge now) c.outboundMsgs },
      e.send (.ack .pubrel a.msgId false)) := by
  obtain ⟨m, hfind, hqos, hnext⟩ := ha
  simp only [handlePubrecs, hfind, hqos, hnext, ne_eq, not_true_eq_false, if_false]

/-- Any other PUBREC changes nothing. -/
theorem handlePubrecs_of_not_awaits (ha : ¬ c.Awaits a.msgId .pubrec) :
    c.handlePubrecs a now e = (c, 0, []) := by
  rcases hfind : findMessage a.msgId c.outboundMsgs with _ | m
  · simp only [handlePubrecs, hfind]
  · simp only [handlePubrecs, hfind]
    split
    · rfl
    · next hqos => exact if_pos fun hnext => ha ⟨m, hfind, not_not.mp hqos, hnext⟩

/-- A PUBCOMP that is waited for ends the exchange. -/
theorem handlePubcomps_of_awaits (ha : c.Awaits a.msgId .pubcomp) : c.handlePubcomps a =
    ({ c with outboundMsgs := removeMessage a.msgId c.outboundMsgs }, 0, []) := by
  obtain ⟨m, hfind, hqos, hnext⟩ := ha
  simp only [handlePubcomps, hfind, hqos, hnext, ne_eq, not_true_eq_false, if_false]

/-- Any other PUBCOMP changes nothing. -/
theorem handlePubcomps_of_not_awaits (ha : ¬ c.Awaits a.msgId .pubcomp) :
    c.handlePubcomps a = (c, 0, []) := by
  rcases hfind : findMessage a.msgId c.outboundMsgs with _ | m
  · simp only [handlePubcomps, hfind]
  · simp only [handlePubcomps, hfind]
    split
    · rfl
    · next hqos => exact if_pos fun hnext => ha ⟨m, hfind, not_not.mp hqos, hnext⟩

/-- What a release does to a message that is held. -/
theorem handlePubrels_of_held (h : c.Valid) (hfind : findMessage a.msgId c.inboundMsgs = some m) :
    c.handlePubrels a e =
      if e.noPendingWrites = false then (c, socketError, [])
      else ({ c.processPublication (releasedPublish m) with
        inboundMsgs := removeMessage a.msgId c.inboundMsgs },
          e.send (.ack .pubcomp a.msgId false)) := by
  obtain ⟨hqos, hnext⟩ := h.inbound m (mem_of_findMessage hfind).1
  simp only [handlePubrels, hfind, hqos, hnext, ne_eq, not_true_eq_false, if_false]
  rfl

/-- What a release does where no message is held: it is answered only if it says that it is a
duplicate. -/
theorem handlePubrels_of_not_held (hfind : findMessage a.msgId c.inboundMsgs = none) :
    c.handlePubrels a e =
      if a.header.dup = false then (c, 0, [])
      else if e.noPendingWrites = false then (c, socketError, [])
      else (c, e.send (.ack .pubcomp a.msgId false)) := by
  simp only [handlePubrels, hfind]

/-- What a publication with quality of service 2 does. -/
theorem handlePublishes_of_two (hqos : p.header.qos = 2) : c.handlePublishes p e =
    if e.noPendingWrites = false then (c, socketError, [])
    else ({ c with inboundMsgs := storeMessage (inboundMessage p) c.inboundMsgs },
      e.send (.ack .pubrec p.msgId false)) := by
  simp only [handlePublishes, hqos]
  rfl

end Handlers

/-- What the handler of a packet does: the client that it leaves, its code, and what the socket
took. -/
inductive Handled (c : Clients) (now : ℕ) (e : Chance) : Packet → Clients × CInt × List Sent → Prop
  /-- The packet is not one of the exchange of messages. -/
  | other {pack : Packet} (hpack : ∀ p, pack ≠ .publish p) (hack : ∀ a, pack ≠ .ack a) :
      Handled c now e pack (c, 0, [])
  /-- A publication with no known quality of service. -/
  | skipped {p : PublishPacket} (hqos : p.header.qos ≠ 2) : Handled c now e (.publish p) (c, 0, [])
  /-- There is no room for the answer. -/
  | refused {pack : Packet} (hpending : e.noPendingWrites = false) :
    Handled c now e pack (c, socketError, [])
  /-- The acknowledgement is not expected. -/
  | ignored {a : Ack} (hnot : a.header.type ∈ [MsgTypes.puback, .pubrec, .pubcomp] →
        ¬ c.Awaits a.msgId a.header.type)
      (hrel : a.header.type = .pubrel → findMessage a.msgId c.inboundMsgs = none) :
      Handled c now e (.ack a) (c, 0, [])
  /-- A publication is passed on at once. -/
  | passedOn {p : PublishPacket} (hqos : p.header.qos ≠ 2) (rc : CInt) {sent : List Sent}
      (hsent : ∀ s ∈ sent, s = .ack .puback p.msgId false) :
      Handled c now e (.publish p) (c.processPublication p, rc, sent)
  /-- A publication is held until its release. -/
  | stored {p : PublishPacket} (hqos : p.header.qos = 2) : Handled c now e (.publish p)
      ({ c with inboundMsgs := storeMessage (inboundMessage p) c.inboundMsgs },
        e.send (.ack .pubrec p.msgId false))
  /-- A held publication is passed on. -/
  | delivered {a : Ack} (htype : a.header.type = .pubrel) {m : StoredMessage}
      (hfind : findMessage a.msgId c.inboundMsgs = some m) : Handled c now e (.ack a)
      ({ c.processPublication (releasedPublish m) with
          inboundMsgs := removeMessage a.msgId c.inboundMsgs },
        e.send (.ack .pubcomp a.msgId false))
  /-- A release comes again, and says so. -/
  | completed {a : Ack} (htype : a.header.type = .pubrel)
      (hfind : findMessage a.msgId c.inboundMsgs = none) (hdup : a.header.dup = true) :
      Handled c now e (.ack a) (c, e.send (.ack .pubcomp a.msgId false))
  /-- A message in flight was received. -/
  | received {a : Ack} (htype : a.header.type = .pubrec) (ha : c.Awaits a.msgId .pubrec) :
      Handled c now e (.ack a)
        ({ c with outboundMsgs := updateMessage a.msgId (acknowledge now) c.outboundMsgs },
          e.send (.ack .pubrel a.msgId false))
  /-- The exchange of a message in flight has ended. -/
  | ended {a : Ack} (htype : a.header.type = .puback ∨ a.header.type = .pubcomp)
      (ha : c.Awaits a.msgId a.header.type) : Handled c now e (.ack a)
        ({ c with outboundMsgs := removeMessage a.msgId c.outboundMsgs }, 0, [])

/-- A publication with another quality of service is passed on, or nothing is done. -/
theorem handlePublishes_of_ne_two {p : PublishPacket} {now : ℕ} {e : Chance}
    (hqos : p.header.qos ≠ 2) :
    Handled c now e (.publish p) (c.handlePublishes p e) := by
  simp only [handlePublishes, if_neg hqos, Chance.send]
  split
  · exact .passedOn hqos _ nofun
  · split
    · next hpending => exact .refused hpending
    · split
      · refine .passedOn hqos _ fun s hs => ?_
        split at hs
        · cases hs
        · exact List.mem_singleton.mp hs
      · exact .skipped hqos

/-- Every packet is handled in one of these ways. -/
theorem Valid.handled (h : c.Valid) (pack : Packet) (now : ℕ) (e : Chance) :
    Handled c now e pack (c.cycle pack now e) := by
  cases pack with
  | publish p =>
      rw [cycle]
      by_cases hqos : p.header.qos = 2
      · rw [handlePublishes_of_two hqos]
        split
        · next hpending => exact .refused hpending
        · exact .stored hqos
      · exact handlePublishes_of_ne_two hqos
  | ack a =>
      -- the type of the packet decides which of the handlers is called
      rw [cycle]
      split
      · next htype =>
          by_cases ha : c.Awaits a.msgId .puback
          · rw [handlePubacks_of_awaits ha]
            exact .ended (Or.inl htype) (htype ▸ ha)
          · rw [handlePubacks_of_not_awaits ha]
            exact .ignored (fun _ => htype ▸ ha) fun hrel => by rw [htype] at hrel; cases hrel
      · next htype =>
          by_cases ha : c.Awaits a.msgId .pubcomp
          · rw [handlePubcomps_of_awaits ha]
            exact .ended (Or.inr htype) (htype ▸ ha)
          · rw [handlePubcomps_of_not_awaits ha]
            exact .ignored (fun _ => htype ▸ ha) fun hrel => by rw [htype] at hrel; cases hrel
      · next htype =>
          by_cases ha : c.Awaits a.msgId .pubrec
          · rw [handlePubrecs_of_awaits ha]
            exact .received htype ha
          · rw [handlePubrecs_of_not_awaits ha]
            exact .ignored (fun _ => htype ▸ ha) fun hrel => by rw [htype] at hrel; cases hrel
      · next htype =>
          rcases hfind : findMessage a.msgId c.inboundMsgs with _ | m
          · rw [handlePubrels_of_not_held hfind]
            split
            · exact .ignored (by simp [htype]) fun _ => hfind
            · next hdup =>
                split
                · next hpending => exact .refused hpending
                · exact .completed htype hfind (by simpa using hdup)
          · rw [handlePubrels_of_held h hfind]
            split
            · next hpending => exact .refused hpending
            · exact .delivered htype hfind
      · next hpuback hpubcomp hpubrec hpubrel =>
          refine .ignored (fun hmem => ?_) fun hrel => absurd hrel hpubrel
          rw [List.mem_cons, List.mem_cons, List.mem_singleton] at hmem
          rcases hmem with htype | htype | htype
          · exact absurd htype hpuback
          · exact absurd htype hpubrec
          · exact absurd htype hpubcomp
  | connack header flags rc => exact .other nofun nofun
  | suback header msgId qoss => exact .other nofun nofun
  | unsuback header msgId => exact .other nofun nofun
  | headerOnly header => exact .other nofun nofun

theorem qos_eq_two {q : BitVec 2} (h : q = 2) : q.setWidth 32 = (2 : CInt) := by
  subst h
  decide

/-- What a handler leaves is valid. -/
theorem Handled.valid {pack : Packet} {now : ℕ} {e : Chance} {res : Clients × CInt × List Sent}
    (hc : c.Valid)
    (h : Handled c now e pack res) : res.1.Valid := by
  cases h with
  | other hpack hack => exact hc
  | skipped hqos => exact hc
  | refused hpending => exact hc
  | ignored hnot hrel => exact hc
  | passedOn hqos rc hsent => exact hc.processPublication _
  | stored hqos => exact hc.storeInbound ⟨qos_eq_two hqos, rfl⟩
  | delivered htype hfind => exact (hc.processPublication _).removeInbound _
  | completed htype hfind hdup => exact hc
  | received htype ha =>
      refine ⟨hc.msgID, ?_, ?_, hc.inbound, hc.inboundNodup⟩
      · intro m hm
        rcases mem_updateMessage hm with hm | ⟨m', hfind, rfl⟩
        · exact hc.outbound m hm
        · obtain ⟨m'', hfind', htwo, -⟩ := ha
          obtain rfl := Option.some.inj (hfind.symm.trans hfind')
          obtain ⟨hid, hqos, -, -⟩ := hc.outbound m' (mem_of_findMessage hfind).1
          exact ⟨hid, hqos, fun _ => Or.inr rfl, fun hne => absurd htwo hne⟩
      · dsimp only
        rw [map_msgid_updateMessage (f := acknowledge now) fun m hid => hid]
        exact hc.nodup
  | ended htype ha => exact hc.removeOutbound _

/-! ## Retries -/

/-- The message but for the time of its last packet. -/
def untouched (m : StoredMessage) : StoredMessage := { m with lastTouch := 0 }

/-- What is sent again for a message in flight. -/
def retryPacket (m : StoredMessage) : Option Sent :=
  if m.qos = 1 ∨ (m.qos = 2 ∧ m.nextMessageType = some .pubrec) then
    some (.publish (retryPublish m) true m.qos m.retain)
  else if m.qos ≠ 0 ∧ m.nextMessageType = some .pubcomp then some (.ack .pubrel m.msgid false)
  else none

section Retries

variable {clock : ℕ} {e : ℕ → Chance} {msgs : List StoredMessage}

/-- The loop changes nothing but times, and what the socket took is due for messages in flight, in
their order. -/
theorem retriesLoop_spec (retryInterval : CInt) (now clock : ℕ) (regardless : Bool) (e : ℕ → Chance)
    (msgs : List StoredMessage) :
    (retriesLoop retryInterval now clock regardless e msgs).1.map untouched = msgs.map untouched ∧
      (retriesLoop retryInterval now clock regardless e msgs).2.1.Sublist
      (msgs.filterMap retryPacket) := by
  induction msgs generalizing e with
  | nil => exact ⟨rfl, List.Sublist.refl _⟩
  | cons m msgs ih =>
      obtain ⟨htouched, hsent⟩ := ih fun n => e (n + 1)
      have hskip : (retriesLoop retryInterval now clock regardless (fun n => e (n + 1))
          msgs).2.1.Sublist
          ((m :: msgs).filterMap retryPacket) :=
        hsent.trans ((List.sublist_cons_self _ _).filterMap _)
      rw [retriesLoop]
      split
      · exact ⟨rfl, List.nil_sublist _⟩
      · dsimp only
        split
        · split
          · next hpublish =>
              split
              · exact ⟨rfl, List.nil_sublist _⟩
              · have hpacket : retryPacket m =
                    some (.publish (retryPublish m) true m.qos m.retain) :=
                  if_pos hpublish
                rw [List.filterMap_cons_some hpacket, List.map_cons, List.map_cons, htouched]
                exact ⟨rfl, hsent.cons_cons _⟩
          · next hpublish =>
              split
              · next hrelease =>
                  split
                  · exact ⟨rfl, List.nil_sublist _⟩
                  · have hpacket : retryPacket m = some (.ack .pubrel m.msgid false) :=
                      (if_neg hpublish).trans (if_pos hrelease)
                    rw [List.filterMap_cons_some hpacket, List.map_cons, List.map_cons, htouched]
                    exact ⟨rfl, hsent.cons_cons _⟩
              · rw [List.map_cons, List.map_cons, htouched]
                exact ⟨rfl, hskip⟩
        · rw [List.map_cons, List.map_cons, htouched]
          exact ⟨rfl, hskip⟩

/-- If the socket is free each time, the loop sends all that is due, up to where it closes the
session. -/
theorem retriesLoop_regardless (retryInterval : CInt) (now clock : ℕ)
    (hfree : ∀ n, (e n).noPendingWrites = true)
    (msgs : List StoredMessage) :
    (retriesLoop retryInterval now clock true e msgs).2.1 <+: msgs.filterMap retryPacket ∧
      ((retriesLoop retryInterval now clock true e msgs).2.2 = false →
        (retriesLoop retryInterval now clock true e msgs).2.1 = msgs.filterMap retryPacket) := by
  induction msgs generalizing e with
  | nil => exact ⟨List.prefix_rfl, fun _ => rfl⟩
  | cons m msgs ih =>
      obtain ⟨hstart, hall⟩ := ih fun n => hfree (n + 1)
      rw [retriesLoop, if_neg (by rw [hfree 0]; exact Bool.false_ne_true.symm)]
      dsimp only
      rw [if_pos (Or.inl rfl)]
      split
      · next hpublish =>
          have hpacket : retryPacket m = some (.publish (retryPublish m) true m.qos m.retain) :=
            if_pos hpublish
          split
          · exact ⟨List.nil_prefix, nofun⟩
          · rw [List.filterMap_cons_some hpacket]
            exact ⟨(List.prefix_cons_inj _).mpr hstart, fun hopen => congrArg _ (hall hopen)⟩
      · next hpublish =>
          split
          · next hrelease =>
              have hpacket : retryPacket m = some (.ack .pubrel m.msgid false) :=
                (if_neg hpublish).trans (if_pos hrelease)
              split
              · exact ⟨List.nil_prefix, nofun⟩
              · rw [List.filterMap_cons_some hpacket]
                exact ⟨(List.prefix_cons_inj _).mpr hstart, fun hopen => congrArg _ (hall hopen)⟩
          · next hrelease =>
              have hpacket : retryPacket m = none := (if_neg hpublish).trans (if_neg hrelease)
              rw [List.filterMap_cons_none hpacket]
              exact ⟨hstart, hall⟩

/-- What a retry does: it touches messages in flight and sends what is due for some of them, and it
may close the session. -/
structure Retried (c : Clients) (res : Clients × Bool × List Sent) (msgs : List StoredMessage) :
    Prop where
  touched : msgs.map untouched = c.outboundMsgs.map untouched
  state : res.1 = if res.2.1 then closeSession { c with outboundMsgs := msgs }
    else { c with outboundMsgs := msgs }
  sent : res.2.2.Sublist (c.outboundMsgs.filterMap retryPacket)

/-- A retry may do nothing. -/
theorem retried_nothing (c : Clients) : Retried c (c, false, []) c.outboundMsgs :=
  ⟨rfl, rfl, List.nil_sublist _⟩

/-- What `MQTTProtocol_retries` does with the messages in flight. -/
theorem retries_spec (c : Clients) (now clock : ℕ) (regardless : Bool) (e : ℕ → Chance) :
    ∃ msgs, Retried c (c.retries now clock regardless e) msgs := by
  rw [retries]
  split
  · exact ⟨_, retried_nothing c⟩
  · split
    · obtain ⟨htouched, hsent⟩ :=
        retriesLoop_spec c.retryInterval now clock regardless e c.outboundMsgs
      exact ⟨_, htouched, rfl, hsent⟩
    · exact ⟨_, retried_nothing c⟩

/-- What `MQTTProtocol_retry` does with the messages in flight. -/
theorem retry_spec (c : Clients) (now clock : ℕ) (doRetry regardless : Bool) (e : ℕ → Chance) :
    ∃ msgs, Retried c (c.retry now clock doRetry regardless e) msgs := by
  rw [retry]
  split
  · exact ⟨_, retried_nothing c⟩
  · split
    · exact ⟨c.outboundMsgs, rfl, rfl, List.nil_sublist _⟩
    · split
      · exact ⟨_, retried_nothing c⟩
      · split
        · exact retries_spec c now clock regardless _
        · exact ⟨_, retried_nothing c⟩

/-- The times of the messages do not matter for the lists. -/
theorem Valid.touch (h : c.Valid) (htouched : msgs.map untouched = c.outboundMsgs.map untouched) :
    Valid { c with outboundMsgs := msgs } := by
  have hids : msgs.map (·.msgid) = c.outboundMsgs.map (·.msgid) := by
    have hcongr := congrArg (List.map (·.msgid)) htouched
    rwa [List.map_map, List.map_map] at hcongr
  refine ⟨h.msgID, fun m hm => ?_, by rw [hids]; exact h.nodup, h.inbound, h.inboundNodup⟩
  have hmem : untouched m ∈ c.outboundMsgs.map untouched := htouched ▸ List.mem_map_of_mem hm
  obtain ⟨m', hm', heq⟩ := List.mem_map.mp hmem
  obtain ⟨hid, hqos, hnext, hother⟩ := h.outbound m' hm'
  rw [untouched, untouched, StoredMessage.mk.injEq] at heq
  obtain ⟨hmsg, -, hnext', -⟩ := heq
  refine ⟨hmsg ▸ hid, hmsg ▸ hqos, ?_, ?_⟩
  · rw [← hmsg, ← hnext']
    exact hnext
  · rw [← hmsg, ← hnext']
    exact hother

/-- Sending again keeps the lists valid. -/
theorem Retried.valid {res : Clients × Bool × List Sent} (hc : c.Valid) (h : Retried c res msgs) :
    res.1.Valid := by
  rw [h.state]
  split
  · exact (hc.touch h.touched).closeSession
  · exact hc.touch h.touched

/-- The client when its connection is accepted, before it sends anything again. -/
def accepted (c : Clients) : Clients :=
  let c := { c with connected := true, good := true }
  if c.cleansession then c.cleanSession else c

/-- A CONNACK keeps the lists valid. -/
theorem Valid.accepted (h : c.Valid) : c.accepted.Valid := by
  unfold Clients.accepted
  dsimp only
  split
  · exact valid_cleanSession
  · exact ⟨h.msgID, h.outbound, h.nodup, h.inbound, h.inboundNodup⟩

/-- What a connection that is accepted does with the messages in flight. -/
theorem connect_spec (c : Clients) (clock : ℕ) (e : ℕ → Chance) :
    ∃ msgs, Retried c.accepted (c.connect clock e) msgs := by
  have heq : c.connect clock e = if c.accepted.outboundMsgs = [] then (c.accepted, false, []) else
      { c.accepted with outboundMsgs := c.accepted.outboundMsgs.map untouched }.retry 0 clock true
        true e := rfl
  rw [heq]
  split
  · exact ⟨_, retried_nothing _⟩
  · obtain ⟨msgs, htouched, hstate, hsent⟩ :=
      retry_spec { c.accepted with outboundMsgs := c.accepted.outboundMsgs.map untouched } 0 clock
        true true e
    refine ⟨msgs, ?_, hstate, ?_⟩
    · rw [htouched, List.map_map]
      rfl
    · have hpackets : (c.accepted.outboundMsgs.map untouched).filterMap retryPacket =
          c.accepted.outboundMsgs.filterMap retryPacket := List.filterMap_map
      rwa [hpackets] at hsent

/-- If the socket is free each time, a new connection is given all that is in flight, up to where it
is closed. -/
theorem connect_regardless (c : Clients) (clock : ℕ) (hfree : ∀ n, (e n).noPendingWrites = true) :
    (c.connect clock e).2.2 <+: c.accepted.outboundMsgs.filterMap retryPacket ∧
      ((c.connect clock e).2.1 = false →
        (c.connect clock e).2.2 = c.accepted.outboundMsgs.filterMap retryPacket) := by
  have heq : c.connect clock e = if c.accepted.outboundMsgs = [] then (c.accepted, false, []) else
      { c.accepted with outboundMsgs := c.accepted.outboundMsgs.map untouched }.retry 0 clock true
        true e := rfl
  have hup : c.accepted.connected = true ∧ c.accepted.good = true := by
    unfold Clients.accepted
    dsimp only
    split <;> exact ⟨rfl, rfl⟩
  rw [heq]
  split
  · next hnil =>
      rw [hnil]
      exact ⟨List.prefix_rfl, fun _ => rfl⟩
  · have hloop := retriesLoop_regardless c.accepted.retryInterval 0 clock (fun n => hfree (n + 1))
      (c.accepted.outboundMsgs.map untouched)
    rw [List.filterMap_map] at hloop
    rw [retry, if_neg (by simp [hup.1]), if_neg (by simp [hup.2]), if_neg (by simp [hfree 0]),
      if_pos rfl, retries,
      if_neg (by simp), if_pos ⟨hup.1, hup.2⟩]
    exact hloop

end Retries

/-! ## Messages that are published -/

section Publishing

variable {topicName payload : CString} {payloadlen qos retained : CInt} {clock : ℕ} {e : Chance}
    {rc : CInt}
  {sent : List Sent}

/-- What a publish takes into a packet. -/
def publishPack (topicName : CString) (payloadlen : CInt) (payload : CString) (msgid : CInt) :
    Publish :=
  ⟨topicName, if 0 < payloadlen.toInt then payload.take payloadlen.toNat else [], payloadlen, msgid⟩

/-- The client after a write; the session is closed if it failed. -/
def afterWrite (c : Clients) (e : Chance) : Clients :=
  if e.write = .failed then c.closeSession else c

theorem rc_eq_socketError : e.write.rc = socketError ↔ e.write = .failed := by
  cases e.write <;> decide

/-- What a publish does: there is no id for its message; or it has none, and only its packet is
sent; or it has an id that is free, and is put in flight. -/
theorem publish_spec
    (h : c.publish topicName payloadlen payload qos retained clock e = some (c', rc, sent)) :
    (0 < qos.toInt ∧ rc = mqttClientMaxMessagesInflight ∧ c' = c ∧ sent = []) ∨
      (¬ 0 < qos.toInt ∧ c' = c.afterWrite e ∧
        sent = (e.send (.publish (publishPack topicName payloadlen payload 0) false qos
        retained)).2) ∨
      (0 < qos.toInt ∧ rc ≠ mqttClientMaxMessagesInflight ∧
      ∃ i, (c.msgID.toNat ≤ 65535 → 0 < i.toNat ∧ i.toNat ≤ 65535) ∧
        (∀ m ∈ c.outboundMsgs, m.msgid ≠ i) ∧
        c' = afterWrite { c with
          msgID := i
          outboundMsgs := c.outboundMsgs ++
            [createMessage (publishPack topicName payloadlen payload i) qos retained clock] } e ∧
        sent = (e.send (.publish (publishPack topicName payloadlen payload i) false qos
        retained)).2) := by
  have hwrite : ∀ (c₁ : Clients) (sent₁ : List Sent), (if e.write.rc = socketError then
      (c₁.closeSession, if 0 < qos.toInt then mqttClientSuccess else mqttClientFailure, sent₁)
      else (c₁, e.write.rc, sent₁)) = (c', rc, sent) →
      rc ≠ mqttClientMaxMessagesInflight ∧ c' = c₁.afterWrite e ∧ sent = sent₁ := by
    intro c₁ sent₁ heq
    rw [afterWrite]
    simp only [rc_eq_socketError] at heq
    split at heq
    · next hfailed =>
        cases heq
        exact ⟨by split <;> decide, (if_pos hfailed).symm, rfl⟩
    · next hfailed =>
        cases heq
        exact ⟨by cases e.write <;> decide, (if_neg hfailed).symm, rfl⟩
  rw [publish, Option.map_eq_some_iff] at h
  obtain ⟨⟨msgid, c₁⟩, hassign, h⟩ := h
  dsimp only at h
  by_cases hqos : 0 < qos.toInt
  · rw [if_pos hqos, Option.map_eq_some_iff] at hassign
    obtain ⟨⟨i, s⟩, hassign, heq⟩ := hassign
    cases heq
    by_cases hzero : i = 0
    · rw [if_pos ⟨hqos, hzero⟩] at h
      cases h
      obtain ⟨msgid', -, heq⟩ := Option.map_eq_some_iff.mp hassign
      cases heq
      rw [if_neg (not_not.mpr hzero)]
      exact Or.inl ⟨hqos, rfl, rfl, rfl⟩
    · rw [if_neg fun h => hzero h.2, startPublish, if_pos hqos] at h
      obtain ⟨rfl, hfree⟩ := Session.assignMsgId_free hassign hzero
      obtain ⟨hrc, hwrote⟩ := hwrite _ _ h
      refine Or.inr (Or.inr ⟨hqos, hrc, i, fun hle => Session.assignMsgId_range hle hassign hzero,
        ?_, hwrote⟩)
      intro m hm
      exact hfree m.toMessages (List.mem_map_of_mem hm)
  · rw [if_neg hqos] at hassign
    cases hassign
    rw [if_neg fun h => hqos h.1, startPublish, if_neg hqos] at h
    exact Or.inr (Or.inl ⟨hqos, (hwrite _ _ h).2⟩)

/-- A write that fails keeps the lists valid. -/
theorem Valid.afterWrite (h : c.Valid) (e : Chance) : (c.afterWrite e).Valid := by
  unfold Clients.afterWrite
  split
  · exact h.closeSession
  · exact h

/-- A publication that is accepted keeps the lists valid. -/
theorem Valid.publish (hc : c.Valid)
    (h : c.publish topicName payloadlen payload qos retained clock e = some (c', rc, sent)) :
    c'.Valid := by
  rcases publish_spec h with ⟨-, -, rfl, -⟩ | ⟨-, rfl, -⟩ | ⟨hqos, -, i, hrange, hfree, rfl, -⟩
  · exact hc
  · exact hc.afterWrite e
  · have hvalid : Valid { c with
        msgID := i
        outboundMsgs := c.outboundMsgs ++
          [createMessage (publishPack topicName payloadlen payload i) qos retained clock] } := by
      refine ⟨(hrange hc.msgID).2, ?_, ?_, hc.inbound, hc.inboundNodup⟩
      · intro m hm
        rcases List.mem_append.mp hm with hm | hm
        · exact hc.outbound m hm
        · rw [List.mem_singleton.mp hm]
          exact ⟨hrange hc.msgID, hqos, fun htwo => Or.inl (if_pos htwo), fun hne => if_neg hne⟩
      · dsimp only
        rw [List.map_append, List.map_singleton, List.nodup_append]
        refine ⟨hc.nodup, List.nodup_singleton _, ?_⟩
        rintro i' hi' j hj rfl
        obtain ⟨m, hm, hid⟩ := List.mem_map.mp hi'
        exact hfree m hm (hid.trans (List.mem_singleton.mp hj))
    exact hvalid.afterWrite e

end Publishing

/-! ## Runs -/

/-- What the application takes or not does not matter for the lists. -/
theorem Valid.messageArrived (h : c.Valid) (accept : Clients.QEntry → Bool) :
    (c.callMessageArrived accept).1.Valid := by
  unfold callMessageArrived
  split
  · exact h
  · split
    · exact ⟨h.msgID, h.outbound, h.nodup, h.inbound, h.inboundNodup⟩
    · exact h

/-- **One step keeps the lists valid.** -/
theorem Valid.step (h : c.Valid) {ev : Event} {sent : List Sent}
    (hstep : c.step ev = .ok (c', sent)) :
    c'.Valid := by
  cases ev with
  | publish topicName payloadlen payload qos retained clock e =>
      simp only [Clients.step] at hstep
      split at hstep
      · rcases hpublish : c.publish topicName payloadlen payload qos retained clock e with _ |
          ⟨c₁, rc, sent₁⟩
        · simp only [hpublish] at hstep
          cases hstep
        · simp only [hpublish] at hstep
          cases hstep
          exact h.publish hpublish
      · cases hstep
        exact h
  | packet pack now e =>
      cases hstep
      exact (h.handled pack now e).valid h
  | retry now clock doRetry regardless e =>
      cases hstep
      obtain ⟨msgs, hretried⟩ := retry_spec c now clock doRetry regardless e
      exact hretried.valid h
  | close =>
      cases hstep
      exact h.closeSession
  | connect clock e =>
      cases hstep
      obtain ⟨msgs, hretried⟩ := connect_spec c clock e
      exact hretried.valid h.accepted
  | messageArrived accept =>
      cases hstep
      exact h.messageArrived accept

/-- **The invariant of a client.**  Over any run, with any packets from its peer, the messages in
flight have different ids from 1 to 65535 and wait for an answer that there is, and the messages
that are held have different ids and wait for their release. -/
theorem valid_run (h : c.Valid) (es : List Event) : (clientMachine.run c es).state.Valid :=
  Machine.invariant_run (G := fun _ _ => True) (Machine.along_of_forall fun _ _ => trivial) h
    fun _ _ _ _ hvalid _ hstep => hvalid.step hstep

/-- A client with a message in flight that was sent and not answered. -/
def waiting : Clients where
  cleansession := false
  connected := true
  good := true
  msgID := 1
  maxInflightMessages := 10
  mqttVersion := 4
  retryInterval := 0
  outboundMsgs := [⟨⟨1, 0, 1, [116], [7], 1⟩, 0, none, 0⟩]
  inboundMsgs := []
  messageQueue := []
  beforeMqtt5 := beforeMqtt5_four

/-- The lists of the example are valid. -/
theorem valid_waiting : waiting.Valid := by
  refine ⟨by decide, fun m hm => ?_, by decide, nofun, by decide⟩
  rw [List.mem_singleton.mp hm]
  exact ⟨by decide, by decide, by decide, fun _ => rfl⟩

/-- The message with quality of service 2 is acknowledged, and the session closed. -/
theorem valid_run_waiting : (clientMachine.run waiting
    [.packet (.ack ⟨⟨.pubrec, false, 0, false⟩, 1⟩) 0 ⟨true, .complete⟩, .close]).state.Valid :=
  valid_run valid_waiting _

/-! ## Messages in flight -/

/-- The message is in flight, whatever is known of its exchange. -/
def InFlightAs (m : Messages) (c : Clients) : Prop := ∃ m' ∈ c.outboundMsgs, m'.toMessages = m

/-- The packet ends the exchange of the message. -/
def Ends (m : Messages) : Event → Prop
  | .packet (.ack a) _ _ =>
      a.msgId = m.msgid ∧ (a.header.type = .puback ∧ m.qos = 1 ∨ a.header.type = .pubcomp ∧
        m.qos = 2)
  | _ => False

section InFlight

variable {m : Messages} {msgs : List StoredMessage}

/-- Sending a message again keeps it in flight. -/
theorem inFlight_of_touched (htouched : msgs.map untouched = c.outboundMsgs.map untouched)
    (h : c.InFlightAs m) (hc : c'.outboundMsgs = msgs) : c'.InFlightAs m := by
  obtain ⟨m', hm', rfl⟩ := h
  have hmem : untouched m' ∈ msgs.map untouched := htouched ▸ List.mem_map_of_mem hm'
  obtain ⟨m'', hm'', heq⟩ := List.mem_map.mp hmem
  refine ⟨m'', hc ▸ hm'', ?_⟩
  rw [untouched, untouched, StoredMessage.mk.injEq] at heq
  exact heq.1

/-- Closing a session that is kept leaves the messages in flight. -/
theorem outboundMsgs_closeSession (hclean : c.cleansession = false) :
    c.closeSession.outboundMsgs = c.outboundMsgs ∧ c.closeSession.cleansession = false := by
  unfold closeSession
  dsimp only
  rw [if_neg (by simp [hclean])]
  exact ⟨rfl, hclean⟩

/-- A write that fails leaves the messages of a kept session in flight. -/
theorem outboundMsgs_afterWrite (hclean : c.cleansession = false) (e : Chance) :
    (c.afterWrite e).outboundMsgs = c.outboundMsgs ∧ (c.afterWrite e).cleansession = false := by
  unfold afterWrite
  split
  · exact outboundMsgs_closeSession hclean
  · exact ⟨rfl, hclean⟩

/-- Sending again leaves the messages of a kept session in flight. -/
theorem Retried.outboundMsgs {res : Clients × Bool × List Sent} (hclean : c.cleansession = false)
    (h : Retried c res msgs) : res.1.outboundMsgs = msgs ∧ res.1.cleansession = false := by
  rw [h.state]
  split
  · exact outboundMsgs_closeSession (c := { c with outboundMsgs := msgs }) hclean
  · exact ⟨rfl, hclean⟩

/-- The handlers keep a message in flight unless they were given the answer that ends its
exchange. -/
theorem Handled.inFlight {pack : Packet} {now : ℕ} {e : Chance} {res : Clients × CInt × List Sent}
    (hc : c.Valid) (hclean : c.cleansession = false) (h : c.InFlightAs m)
    (hres : Handled c now e pack res) :
    res.1.cleansession = false ∧ (res.1.InFlightAs m ∨ Ends m (.packet pack now e)) := by
  obtain ⟨m', hm', rfl⟩ := h
  cases hres with
  | other hpack hack => exact ⟨hclean, Or.inl ⟨m', hm', rfl⟩⟩
  | skipped hqos => exact ⟨hclean, Or.inl ⟨m', hm', rfl⟩⟩
  | refused hpending => exact ⟨hclean, Or.inl ⟨m', hm', rfl⟩⟩
  | ignored hnot hrel => exact ⟨hclean, Or.inl ⟨m', hm', rfl⟩⟩
  | passedOn hqos rc hsent => exact ⟨hclean, Or.inl ⟨m', hm', rfl⟩⟩
  | stored hqos => exact ⟨hclean, Or.inl ⟨m', hm', rfl⟩⟩
  | delivered htype hfind => exact ⟨hclean, Or.inl ⟨m', hm', rfl⟩⟩
  | completed htype hfind hdup => exact ⟨hclean, Or.inl ⟨m', hm', rfl⟩⟩
  | @received a htype ha =>
      refine ⟨hclean, Or.inl ⟨if m'.msgid = a.msgId then acknowledge now m' else m', ?_, ?_⟩⟩
      · dsimp only
        rw [updateMessage_eq hc.nodup]
        exact List.mem_map_of_mem hm'
      · split <;> rfl
  | @ended a htype ha =>
      refine ⟨hclean, ?_⟩
      obtain ⟨m'', hfind, hexpects⟩ := ha
      by_cases hid : m'.msgid = a.msgId
      · obtain ⟨hmem, hid'⟩ := mem_of_findMessage hfind
        obtain rfl := eq_of_msgid hc.nodup hmem hm' (hid.trans hid'.symm)
        refine Or.inr ⟨hid.symm, ?_⟩
        rcases htype with htype | htype <;> rw [htype] at hexpects
        · exact Or.inl ⟨htype, hexpects⟩
        · exact Or.inr ⟨htype, hexpects.1⟩
      · refine Or.inl ⟨m', ?_, rfl⟩
        dsimp only
        rw [removeMessage_eq hc.nodup]
        exact List.mem_filter.mpr ⟨hm', by simpa using hid⟩

/-- One event keeps a message in flight unless it is the answer that ends its exchange. -/
theorem step_inFlight (hc : c.Valid) (hclean : c.cleansession = false) (h : c.InFlightAs m)
    {ev : Event}
    {sent : List Sent} (hstep : c.step ev = .ok (c', sent)) :
    c'.cleansession = false ∧ (c'.InFlightAs m ∨ Ends m ev) := by
  have hsame : ∀ {c₁ : Clients}, c₁.outboundMsgs = c.outboundMsgs → c₁.InFlightAs m := fun heq => by
    obtain ⟨m', hm', heq'⟩ := h
    exact ⟨m', heq ▸ hm', heq'⟩
  cases ev with
  | publish topicName payloadlen payload qos retained clock e =>
      simp only [Clients.step] at hstep
      split at hstep
      · rcases hpublish : c.publish topicName payloadlen payload qos retained clock e with _ |
          ⟨c₁, rc, sent₁⟩
        · simp only [hpublish] at hstep
          cases hstep
        · simp only [hpublish] at hstep
          cases hstep
          rcases publish_spec hpublish with ⟨-, -, rfl, -⟩ | ⟨-, rfl, -⟩ |
            ⟨hqos, -, i, -, -, rfl, -⟩
          · exact ⟨hclean, Or.inl h⟩
          · obtain ⟨hout, hclean'⟩ := outboundMsgs_afterWrite hclean e
            exact ⟨hclean', Or.inl (hsame hout)⟩
          · obtain ⟨hout, hclean'⟩ := outboundMsgs_afterWrite (c := { c with
              msgID := i
              outboundMsgs := c.outboundMsgs ++
                [createMessage (publishPack topicName payloadlen payload i) qos retained clock] })
                hclean e
            obtain ⟨m', hm', heq⟩ := h
            exact ⟨hclean', Or.inl ⟨m', by rw [hout]; exact List.mem_append_left _ hm', heq⟩⟩
      · cases hstep
        exact ⟨hclean, Or.inl h⟩
  | packet pack now e =>
      cases hstep
      exact (hc.handled pack now e).inFlight hc hclean h
  | retry now clock doRetry regardless e =>
      cases hstep
      obtain ⟨msgs, hretried⟩ := retry_spec c now clock doRetry regardless e
      obtain ⟨hout, hclean'⟩ := hretried.outboundMsgs hclean
      exact ⟨hclean', Or.inl (inFlight_of_touched hretried.touched h hout)⟩
  | close =>
      cases hstep
      obtain ⟨hout, hclean'⟩ := outboundMsgs_closeSession hclean
      exact ⟨hclean', Or.inl (hsame hout)⟩
  | connect clock e =>
      cases hstep
      obtain ⟨msgs, hretried⟩ := connect_spec c clock e
      -- the session is kept, so that the connection does not empty the list
      have haccepted : c.accepted.outboundMsgs = c.outboundMsgs ∧
          c.accepted.cleansession = false := by
        unfold accepted
        dsimp only
        rw [if_neg (by simp [hclean])]
        exact ⟨rfl, hclean⟩
      obtain ⟨hout, hclean'⟩ := hretried.outboundMsgs haccepted.2
      exact ⟨hclean', Or.inl (inFlight_of_touched hretried.touched (hsame haccepted.1) hout)⟩
  | messageArrived accept =>
      cases hstep
      unfold callMessageArrived
      split
      · exact ⟨hclean, Or.inl h⟩
      · split
        · exact ⟨hclean, Or.inl (hsame rfl)⟩
        · exact ⟨hclean, Or.inl h⟩

/-- **A message stays in flight until its exchange has ended.**  Whatever is lost, however often the
connection ends, and whatever else the peer sends: a message that is in flight is in flight after
any run in which the answer that ends its exchange has not come, if the session is kept. -/
theorem inFlight_until_acknowledged (hc : c.Valid) (hclean : c.cleansession = false)
    (h : c.InFlightAs m)
    {es : List Event} (hes : ∀ ev ∈ es, ¬ Ends m ev) :
    (clientMachine.run c es).state.InFlightAs m := by
  have hall := Machine.invariant_run (M := clientMachine) (G := fun _ ev => ¬ Ends m ev)
    (I := fun c => c.Valid ∧ c.cleansession = false ∧ c.InFlightAs m)
    (Machine.along_of_forall_mem hes) ⟨hc, hclean, h⟩ ?_
  · exact hall.2.2
  · rintro c ev c' sent ⟨hc, hclean, h⟩ hev hstep
    obtain ⟨hclean', h'⟩ := step_inFlight hc hclean h hstep
    exact ⟨hc.step hstep, hclean', h'.resolve_right hev⟩

/-- The connection ends, and the acknowledgement is one of another message. -/
theorem inFlight_until_acknowledged_waiting : (clientMachine.run waiting
    [.close, .connect 0 fun _ => ⟨true, .complete⟩,
      .packet (.ack ⟨⟨.puback, false, 0, false⟩, 2⟩) 0 ⟨true, .complete⟩]).state.InFlightAs
    ⟨1, 0, 1, [116], [7], 1⟩ := by
  refine inFlight_until_acknowledged valid_waiting rfl ⟨_, List.mem_singleton_self _, rfl⟩ ?_
  intro ev hev
  simp only [List.mem_cons, List.not_mem_nil, or_false] at hev
  rcases hev with rfl | rfl | rfl
  · exact not_false
  · exact not_false
  · rintro ⟨hid, -⟩
    exact absurd hid (by decide)

end InFlight

end Clients
