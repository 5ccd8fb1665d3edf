/-
# Delivery

What becomes of the messages that one client publishes and another one receives, over
connections that break at any moment.  The two clients run the two halves of the protocol as
this library has them, before MQTT 5; both keep their sessions, and what the application
publishes keeps to the limits of the format (`Action.Fits`), which the library does not check.
Their system is then an exchange of messages (`System.Fine.step`), so

* `System.exactly_once` : no message of quality of service 2 is lost, and none is delivered
  twice, whatever breaks;
* `System.published_in_order` : they are delivered in the order in which they were published, if the
  socket of every new connection is free while what is in flight is sent again;
* `System.wire` : the bytes on their way are read as the packets that were sent;
* `System.stuck_for_ever`, `System.full_for_ever` : a `PUBCOMP` that was lost is never sent
  again, its message stays in flight for ever, and enough of them stop the sender.
-/
import DataLogger.ProtocolSimulation

/-- A socket that takes everything. -/
def Chance.free : Chance := ⟨true, .complete⟩

namespace System

variable {s s' : System} {now : ℕ} {e : Chance} {i : CInt} {res : Clients × CInt × List Sent}

/-! ## Runs -/

/-- The socket of a new connection is free while what is in flight is sent again. -/
def Action.Free : Action → Prop
  | .connect _ e _ => ∀ n, (e n).noPendingWrites = true
  | _ => True

/-- The application takes the message, or does not. -/
theorem Fine.messageArrived (hs : s.Fine) (accept : Clients.QEntry → Bool)
    (h : s.step (.messageArrived accept) = .ok (s', ())) :
    s'.Fine ∧ Reliably s s' := by
  have hvalid := hs.receiver.messageArrived accept
  simp only [System.step, Clients.callMessageArrived] at h hvalid
  rcases hqueue : s.receiver.messageQueue with _ | ⟨qe, queue⟩
  · simp only [hqueue] at h
    cases h
    exact ⟨hs, .refl⟩
  · simp only [hqueue] at h hvalid
    split at h
    · next haccept =>
        rw [if_pos haccept] at hvalid
        cases h
        refine ⟨⟨hs.sender, hvalid, hs.senderKeeps, hs.receiverKeeps, hs.noOutbound, hs.outbound,
          hs.forward, hs.back⟩, ?_⟩
        have hexchange : exchange { s with
            receiver := { s.receiver with messageQueue := queue }, accepted :=
              s.accepted ++ [qe] } = s.exchange := by
          rw [exchange, exchange, delivered, delivered]
          dsimp only
          rw [hqueue, List.append_assoc, List.singleton_append]
          rfl
        rw [Reliably, hexchange]
    · cases h
      exact ⟨hs, .refl⟩

/-- **One action** keeps the invariant, and is a step of the exchange. -/
theorem Fine.step (hs : s.Fine) {a : Action} (ha : a.Fits) (h : s.step a = .ok (s', ())) :
    s'.Fine ∧ Relation.ReflTransGen Exchange.Step s.exchange s'.exchange ∧
      (a.Free → Reliably s s') := by
  have hreliable : s'.Fine ∧ Reliably s s' →
      s'.Fine ∧ Relation.ReflTransGen Exchange.Step s.exchange s'.exchange ∧
      (a.Free → Reliably s s') :=
    fun h => ⟨h.1, Exchange.steps_of_reliable h.2, fun _ => h.2⟩
  cases a with
  | publish topicName payloadlen payload qos retained clock e =>
      rcases hpublish : s.publish topicName payloadlen payload qos retained clock e with f | s₁
      · simp only [System.step, hpublish] at h
        cases h
      · simp only [System.step, hpublish] at h
        cases h
        exact hreliable (hs.publish ha hpublish)
  | senderReads now e =>
      cases h
      exact hreliable (hs.senderReads now e)
  | receiverReads now e =>
      cases h
      exact hreliable (hs.receiverReads now e)
  | retry now clock doRetry regardless e =>
      cases h
      obtain ⟨msgs, hretried⟩ := Clients.retry_spec s.sender now clock doRetry regardless e
      exact hreliable (hs.retried hretried)
  | disconnect =>
      cases h
      exact hreliable ⟨hs.withUp false, reliably_of_same rfl (Bool.and_false _).symm⟩
  | senderCloses =>
      cases h
      refine hreliable ⟨hs.closeSender nofun, ?_⟩
      refine reliably_of_broken .refl List.prefix_rfl List.nil_prefix ?_ rfl
      rw [closeSession_kept hs.senderKeeps]
      rfl
  | receiverCloses =>
      cases h
      refine hreliable ⟨hs.closeReceiver nofun, ?_⟩
      refine reliably_of_broken .refl List.nil_prefix List.prefix_rfl ?_ rfl
      rw [closeSession_kept hs.receiverKeeps]
      rfl
  | connect clock e e' =>
      simp only [System.step] at h
      split at h
      · cases h
        exact hreliable ⟨hs, .refl⟩
      · obtain ⟨msgs, hretried⟩ := Clients.connect_spec s.sender clock e
        rw [connect_idle hs.receiverKeeps hs.noOutbound] at h
        cases h
        exact ⟨hs.connected hretried, connected_steps hs hretried,
          fun hfree => connected_reliably hs hfree rfl hretried⟩
  | messageArrived accept => exact hreliable (hs.messageArrived accept h)

variable {sending receiving : SessionOptions} {as : List Action}

/-- The two clients after a run. -/
def after (sending receiving : SessionOptions) (as : List Action) : System :=
  (systemMachine.run (initial sending receiving) as).state

/-- The invariant holds before the first connection of two clients that keep their sessions. -/
theorem fine_initial (hsending : sending.Kept) (hreceiving : receiving.Kept) :
    (initial sending receiving).Fine := by
  have hvalid (o : SessionOptions) : (newClient o).Valid :=
    ⟨Nat.zero_le _, nofun, List.nodup_nil, nofun, List.nodup_nil⟩
  exact ⟨hvalid _, hvalid _, hsending, hreceiving, rfl, nofun, nofun, nofun⟩

/-- **A run** keeps the invariant, and is a run of the exchange. -/
theorem Fine.run (hs : s.Fine) (has : ∀ a ∈ as, a.Fits) : (systemMachine.run s as).state.Fine ∧
    Relation.ReflTransGen Exchange.Step s.exchange (systemMachine.run s as).state.exchange := by
  refine Machine.invariant_run (M := systemMachine) (G := fun _ a => a.Fits)
    (I := fun s' => s'.Fine ∧ Relation.ReflTransGen Exchange.Step s.exchange s'.exchange)
    (Machine.along_of_forall_mem has) ⟨hs, .refl⟩ ?_
  rintro s₁ a s₂ ⟨⟩ ⟨hfine, hsteps⟩ ha hok
  obtain ⟨hfine', hsteps', -⟩ := hfine.step ha hok
  exact ⟨hfine', hsteps.trans hsteps'⟩

/-- A run over connections with free sockets is a run of the exchange that keeps the order. -/
theorem Fine.run_reliably (hs : s.Fine) (has : ∀ a ∈ as, a.Fits ∧ a.Free) :
    Reliably s (systemMachine.run s as).state := by
  have hrun := Machine.invariant_run (M := systemMachine) (G := fun _ a => a.Fits ∧ a.Free)
    (I := fun s' => s'.Fine ∧ Reliably s s') (Machine.along_of_forall_mem has) ⟨hs, .refl⟩ ?_
  · exact hrun.2
  · rintro s₁ a s₂ ⟨⟩ ⟨hfine, hreliably⟩ ⟨ha, hfree⟩ hok
    obtain ⟨hfine', -, hstep⟩ := hfine.step ha hok
    exact ⟨hfine', hreliably.trans (hstep hfree)⟩

/-- **Exactly once.**  If both sessions are kept, over every run, however often connections break,
and whatever is lost with them: what was published with quality of service 2 is what the receiver's
application was given, or will be given as it waits in its queue, and what is still under way, each
once. -/
theorem exactly_once (hsending : sending.Kept) (hreceiving : receiving.Kept)
    (has : ∀ a ∈ as, a.Fits) :
    (after sending receiving as).published.Perm
      ((after sending receiving as).delivered ++
        (after sending receiving as).undelivered) := by
  obtain ⟨-, hsteps⟩ := (fine_initial hsending hreceiving).run has
  have hconserved := Exchange.conserved hsteps
  rw [Exchange.Conserved, undelivered_exchange] at hconserved
  exact hconserved

/-- A message is published and delivered, and the answer to its release is lost. -/
def lostCompletion : List Action :=
  [.connect 0 (fun _ => .free) (fun _ => .free), .publish [116] 1 [7] 2 0 0 .free,
    .receiverReads 0 .free, .senderReads 0 .free, .receiverReads 0 .free,
    .messageArrived fun _ => true, .senderCloses]

/-- A session that is kept, with one message in flight at a time. -/
def kept : SessionOptions := ⟨false, 1, 4, 0, beforeMqtt5_four⟩

/-- These sessions are kept. -/
theorem kept_kept : kept.Kept := rfl

/-- The run in which the completion is lost: the message was delivered, once. -/
theorem exactly_once_lostCompletion :
    (after kept kept lostCompletion).delivered = [⟨[116], [7], false⟩] ∧
    (after kept kept lostCompletion).published.Perm
      ((after kept kept lostCompletion).delivered ++
        (after kept kept lostCompletion).undelivered) :=
  ⟨by decide, exactly_once kept_kept kept_kept (by decide)⟩

/-- **In order.**  If both sessions are kept, and the socket of every new connection is free while
what is in flight is sent again, messages are delivered in the order in which they were
published. -/
theorem published_in_order (hsending : sending.Kept) (hreceiving : receiving.Kept)
    (has : ∀ a ∈ as, a.Fits ∧ a.Free) :
    (after sending receiving as).published =
      (after sending receiving as).delivered ++
        (after sending receiving as).undelivered := by
  have hordered := Exchange.in_order ((fine_initial hsending hreceiving).run_reliably has)
  rw [undelivered_exchange] at hordered
  exact hordered

/-- In the same run, what was published is what was delivered and what still waits. -/
theorem published_in_order_lostCompletion : (after kept kept lostCompletion).published =
    (after kept kept lostCompletion).delivered ++ (after kept kept lostCompletion).undelivered := by
  refine published_in_order kept_kept kept_kept fun a ha => ⟨?_, ?_⟩
  · revert a
    decide
  · simp only [lostCompletion, List.mem_cons, List.not_mem_nil, or_false] at ha
    rcases ha with rfl | rfl | rfl | rfl | rfl | rfl | rfl
    · exact fun _ => rfl
    all_goals trivial

/-- **The bytes on their way.**  If both sessions are kept, they are read as the packets that were
sent, in both directions, whatever bytes are behind each packet in the buffer of its reader. -/
theorem wire (hsending : sending.Kept) (hreceiving : receiving.Kept) (has : ∀ a ∈ as, a.Fits)
    {l : List Sent} (hl : l = (after sending receiving as).forward ∨
      l = (after sending receiving as).back) :
    ∃ fs, packetFramer.frames (l.flatMap fun p => p.buffers.flatten) = (fs, []) ∧
      ∀ behind, fs.map (fun f => buildPacket f.1 f.2 behind) =
        l.map fun p => .ok (some p.packet, 0) := by
  obtain ⟨hfine, -⟩ := (fine_initial hsending hreceiving).run has
  refine Sent.frames_read_back fun p hp => ?_
  rcases hl with rfl | rfl
  · have hforward := hfine.forward p hp
    cases p with
    | publish pack dup qos retained => exact hforward
    | ack type msgid dup =>
        obtain ⟨rfl, -, hid⟩ := hforward
        exact ⟨by decide, hid⟩
  · have hback := hfine.back p hp
    cases p with
    | publish pack dup qos retained => exact hback.elim
    | ack type msgid dup =>
        obtain ⟨htype, hid⟩ := hback
        refine ⟨?_, hid⟩
        simp only [List.mem_cons, List.not_mem_nil, or_false] at htype ⊢
        rcases htype with rfl | rfl | rfl <;> decide

/-- In the same run, what is on its way reads back as it was sent. -/
theorem wire_lostCompletion : ∃ fs, packetFramer.frames
    ((after kept kept (lostCompletion.take 2)).forward.flatMap fun p => p.buffers.flatten) =
      (fs, []) ∧
    ∀ behind, fs.map (fun f => buildPacket f.1 f.2 behind) =
      (after kept kept (lostCompletion.take 2)).forward.map fun p => .ok (some p.packet, 0) :=
  wire kept_kept kept_kept (by decide) (Or.inl rfl)

/-- The message with the id `i` was delivered, but the word of it is lost. -/
structure Stuck (s : System) (i : CInt) (m : Content) : Prop where
  inFlight : ∃ m' ∈ s.sender.outboundMsgs, m'.msgid = i ∧ m'.content = m ∧ m'.qos = 2 ∧
    m'.nextMessageType = some .pubcomp
  held : Clients.findMessage i s.receiver.inboundMsgs = none
  lost : ∀ dup, Sent.ack .pubcomp i dup ∉ s.back

/-- A message that is stuck is stuck in the exchange. -/
theorem Stuck.exchange {m : Content} (hinv : s.exchange.Invariant) (h : s.Stuck i m) :
    s.exchange.Stuck i m := by
  obtain ⟨⟨m', hm', rfl, rfl, hqos, hnext⟩, hheld, hlost⟩ := h
  have hflight : m'.toInFlight = some ⟨m'.msgid, m'.content, true⟩ := by
    rw [StoredMessage.toInFlight, if_pos hqos, hnext]
    rfl
  refine ⟨Exchange.findOf_of_mem hinv.nodup (List.mem_filterMap.mpr ⟨m', hm', hflight⟩), ?_,
    fun hmem => ?_⟩
  · exact congrArg (Option.map StoredMessage.content) hheld
  · obtain ⟨p, hp, hreply⟩ := List.mem_filterMap.mp hmem
    cases p with
    | publish pack dup qos retained => cases hreply
    | ack type msgid dup =>
        cases type <;> cases hreply
        exact hlost dup hp

/-- A message that is stuck in the exchange is stuck. -/
theorem Stuck.of_exchange {m : Content} (h : s.exchange.Stuck i m) : s.Stuck i m := by
  obtain ⟨hflight, hheld, hlost⟩ := h
  obtain ⟨m', hm', hflight⟩ := List.mem_filterMap.mp (Exchange.mem_of_findOf hflight).1
  refine ⟨⟨m', hm', ?_⟩, Option.map_eq_none_iff.mp hheld, fun dup hmem => ?_⟩
  · unfold StoredMessage.toInFlight at hflight
    split at hflight
    · next hqos =>
        obtain ⟨hid, hcontent, hreleased⟩ := InFlight.mk.inj (Option.some.inj hflight)
        exact ⟨hid, hcontent, hqos, of_decide_eq_true hreleased⟩
    · cases hflight
  · exact hlost (List.mem_filterMap.mpr ⟨_, hmem, rfl⟩)

/-- A message that is stuck is stuck after any run. -/
theorem Stuck.run {m : Content} (hs : s.Fine) (hinv : s.exchange.Invariant) (has : ∀ a ∈ as, a.Fits)
    (h : s.Stuck i m) : (systemMachine.run s as).state.Stuck i m := by
  obtain ⟨-, hsteps⟩ := hs.run has
  exact .of_exchange ((h.exchange hinv).steps hinv hsteps)

/-- What holds of every state that is reached. -/
theorem reachable (hsending : sending.Kept) (hreceiving : receiving.Kept)
    (has : ∀ a ∈ as, a.Fits) :
    (after sending receiving as).Fine ∧ (after sending receiving as).exchange.Invariant := by
  obtain ⟨hfine, hsteps⟩ := (fine_initial hsending hreceiving).run has
  exact ⟨hfine, Exchange.invariant_start.steps hsteps⟩

/-- **A `PUBCOMP` that was lost is never sent again.**  If both sessions are kept, and once the
receiver has delivered a message and its answer is lost, the message stays in flight for ever, with
its id and its place among those in flight. -/
theorem stuck_for_ever (hsending : sending.Kept) (hreceiving : receiving.Kept)
    (has : ∀ a ∈ as, a.Fits) {as' : List Action} (has' : ∀ a ∈ as', a.Fits) {i : CInt}
    {m : Content} (h : (after sending receiving as).Stuck i m) :
    (systemMachine.run (after sending receiving as) as').state.Stuck i m := by
  obtain ⟨hfine, hinv⟩ := reachable hsending hreceiving has
  exact h.run hfine hinv has'

/-- After the run in which the completion is lost, the message is stuck. -/
theorem stuck_lostCompletion : (after kept kept lostCompletion).Stuck 1 ⟨[116], [7], false⟩ where
  inFlight := by decide
  held := by decide
  lost := by decide

/-- A new connection does not help it. -/
theorem stuck_for_ever_lostCompletion : (systemMachine.run (after kept kept lostCompletion)
    [.connect 0 (fun _ => .free) (fun _ => .free), .receiverReads 0 .free]).state.Stuck 1
      ⟨[116], [7], false⟩ :=
  stuck_for_ever kept_kept kept_kept (by decide) (by decide) stuck_lostCompletion

/-! ## The limit of messages in flight -/

theorem maxInflight_closeSession (c : Clients) :
    c.closeSession.maxInflightMessages = c.maxInflightMessages := by
  unfold Clients.closeSession
  dsimp only
  split <;> rfl

theorem maxInflight_afterWrite (c : Clients) (e : Chance) :
    (c.afterWrite e).maxInflightMessages = c.maxInflightMessages := by
  unfold Clients.afterWrite
  split
  · exact maxInflight_closeSession c
  · rfl

/-- The handlers leave the number of messages that may be in flight as it is. -/
theorem maxInflight_handled {c : Clients} {pack : Packet} (h : Clients.Handled c now e pack res) :
    res.1.maxInflightMessages = c.maxInflightMessages := by
  cases h <;> rfl

/-- Sending again leaves the number of messages that may be in flight as it is. -/
theorem maxInflight_retried {c : Clients} {r : Clients × Bool × List Sent}
    {msgs : List StoredMessage}
    (h : Clients.Retried c r msgs) : r.1.maxInflightMessages = c.maxInflightMessages := by
  rw [h.state]
  split
  · exact maxInflight_closeSession _
  · rfl

/-- No action changes the limit of the sender. -/
theorem Fine.maxInflight (hs : s.Fine) {a : Action} (h : s.step a = .ok (s', ())) :
    s'.sender.maxInflightMessages = s.sender.maxInflightMessages := by
  cases a with
  | publish topicName payloadlen payload qos retained clock e =>
      simp only [System.step, System.publish] at h
      split at h
      · rcases hpublish : s.sender.publish topicName payloadlen payload qos retained clock
          e with _ | ⟨c, rc, sent⟩
        · simp only [hpublish] at h
          cases h
        · simp only [hpublish] at h
          cases h
          rcases Clients.publish_spec hpublish with ⟨-, -, rfl, -⟩ | ⟨-, rfl, -⟩ |
            ⟨-, -, i, -, -, rfl, -⟩
          · rfl
          · exact maxInflight_afterWrite _ e
          · exact maxInflight_afterWrite _ e
      · cases h
        rfl
  | senderReads now e =>
      cases h
      unfold System.senderReads
      split
      · rfl
      · next p ps hb =>
          have hhandled := hs.sender.handled p.packet now e
          split
          · dsimp only
            split
            · exact (maxInflight_closeSession _).trans (maxInflight_handled hhandled)
            · exact maxInflight_handled hhandled
          · rfl
  | receiverReads now e =>
      cases h
      unfold System.receiverReads
      split
      · rfl
      · split
        · dsimp only
          split <;> rfl
        · rfl
  | retry now clock doRetry regardless e =>
      cases h
      obtain ⟨msgs, hretried⟩ := Clients.retry_spec s.sender now clock doRetry regardless e
      exact maxInflight_retried hretried
  | disconnect =>
      cases h
      rfl
  | senderCloses =>
      cases h
      exact maxInflight_closeSession _
  | receiverCloses =>
      cases h
      rfl
  | connect clock e e' =>
      simp only [System.step] at h
      split at h
      · cases h
        rfl
      -- the sender's session is kept, so that the connection does not change it first
      · cases h
        obtain ⟨msgs, hretried⟩ := Clients.connect_spec s.sender clock e
        refine (maxInflight_retried hretried).trans ?_
        rw [accepted_kept hs.senderKeeps]
  | messageArrived accept =>
      cases h
      rfl

/-- Over any run as many messages may be in flight as before it. -/
theorem Fine.run_maxInflight (hs : s.Fine) (has : ∀ a ∈ as, a.Fits) :
    (systemMachine.run s as).state.sender.maxInflightMessages = s.sender.maxInflightMessages := by
  have hrun := Machine.invariant_run (M := systemMachine) (G := fun _ a => a.Fits)
    (I := fun s' => s'.Fine ∧ s'.sender.maxInflightMessages = s.sender.maxInflightMessages)
    (Machine.along_of_forall_mem has) ⟨hs, rfl⟩ ?_
  · exact hrun.2
  · rintro s₁ a s₂ ⟨⟩ ⟨hfine, hsame⟩ ha hok
    exact ⟨(hfine.step ha hok).1, (hfine.maxInflight hok).trans hsame⟩

/-- **Lost answers stop the sender.**  If both sessions are kept, and when as many messages are
stuck as may be in flight, the sender never has room for another one again, over any run and over
any connections. -/
theorem full_for_ever (hsending : sending.Kept) (hreceiving : receiving.Kept)
    (has : ∀ a ∈ as, a.Fits) {as' : List Action} (has' : ∀ a ∈ as', a.Fits)
    {is : List CInt} (his : is.Nodup)
    (hstuck : ∀ i ∈ is, ∃ m, (after sending receiving as).Stuck i m)
    (hfull : sending.maxInflightMessages.toInt ≤ is.length) (e : Chance) :
    ¬ (systemMachine.run (after sending receiving as) as').state.sender.HasRoom e := by
  obtain ⟨hfine, hinv⟩ := reachable hsending hreceiving has
  have hmax := hfine.run_maxInflight has'
  rw [after, (fine_initial hsending hreceiving).run_maxInflight has] at hmax
  have hsubset : is ⊆ (systemMachine.run (after sending receiving as)
      as').state.sender.outboundMsgs.map (·.msgid) := by
    intro i hi
    obtain ⟨m, hm⟩ := hstuck i hi
    obtain ⟨m', hm', hid, -⟩ := (hm.run hfine hinv has').inFlight
    exact List.mem_map.mpr ⟨m', hm', hid⟩
  have hlength := (his.subperm hsubset).length_le
  rw [List.length_map] at hlength
  rintro ⟨hroom, -⟩
  rw [after] at hlength hroom
  rw [hmax] at hroom
  have hlimit : (initial sending receiving).sender.maxInflightMessages =
      sending.maxInflightMessages := rfl
  rw [hlimit] at hroom
  omega

/-- Where one message may be in flight, the stuck one is in the way of all others. -/
theorem full_for_ever_lostCompletion : ¬ (systemMachine.run (after kept kept lostCompletion)
    [.connect 0 (fun _ => .free) (fun _ => .free), .receiverReads 0 .free]).state.sender.HasRoom
      .free := by
  have hstuck : ∀ i ∈ ([1] : List CInt), ∃ m, (after kept kept lostCompletion).Stuck i m := by
    intro i hi
    rw [List.mem_singleton.mp hi]
    exact ⟨_, stuck_lostCompletion⟩
  exact full_for_ever kept_kept kept_kept (by decide) (by decide) (by decide) hstuck (by decide) _

end System
