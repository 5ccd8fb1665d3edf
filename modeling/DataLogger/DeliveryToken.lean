/-
# The delivery token of `mqtt_publish`

`mqtt_publish` passes a local variable to `MQTTClient_publishMessage` by address, and waits
for the token that it finds there.  The library writes the token for `qos > 0` only, and the
variable has no initial value, so otherwise the wait is for whatever the stack held before.

`sessionLibrary` is the client library with the messages in flight; it refines the model of
handles (`sessionLibrary_refines`), so every call over it is a step of the wrapper's machine
(`step_of_exec`).  `delivery_token_law` says for which calls the wait is for the call's own
message, whatever is in flight and whatever the variable held, and `waits_for_own_message`
which message that is.
-/
import DataLogger.MqttWrapper
import DataLogger.MqttSession

/-! ## The library with sessions -/

section Library

variable {Addr : Type} [DecidableEq Addr]

/-- The live clients with their sessions, and what the looks of
`MQTTClient_waitForCompletion` at the messages in flight found so far. -/
structure LibraryState (Addr : Type) where
  clients : ClientState Addr
  sessions : Addr → Session
  looks : List (Option Messages)

/-- The environment of one call: the moments at which it gets the mutex, its allocations and
its packet; and for the functions that are modelled by handles only, their free choices and
what they make of the sessions. -/
structure LibraryChoice (Addr : Type) where
  moments : List Moment
  env : Sending
  call : Choice Addr
  sessions : (Addr → Session) → Addr → Session

/-- Why a call does not return. -/
inductive LibraryFault (Addr : Type)
  | handle (f : Heap.Fault Addr)
  | session (f : SessionFault)
  deriving DecidableEq

namespace LibraryState

/-- `MQTTClient_publishMessage`; the last component is what it wrote to the token. -/
def publishMessage (handle : Ptr Addr) (topicName : CString) (msg : Message)
    (d : LibraryChoice Addr)
    (s : LibraryState Addr) : Except (LibraryFault Addr) (LibraryState Addr × CInt × Option CInt) :=
  match s.clients.deref handle with
  | .error f => .error (.handle f)
  | .ok a =>
      match (s.sessions a).publishMessage topicName msg d.env d.moments with
      | .error f => .error (.session f)
      | .ok (session, rc, written) =>
          .ok ({ s with sessions := Function.update s.sessions a session }, rc, written)

/-- `MQTTClient_waitForCompletion`. -/
def waitForCompletion (handle : Ptr Addr) (mdt : CInt) (timeout : CULong) (d : LibraryChoice Addr)
    (s : LibraryState Addr) : Except (LibraryFault Addr) (LibraryState Addr × CInt) :=
  match handle with
  | none => .ok (s, mqttClientFailure)
  | some a =>
      match s.clients.deref (some a) with
      | .error f => .error (.handle f)
      | .ok a =>
          match (s.sessions a).waitForCompletion mdt timeout d.moments with
          | .error f => .error (.session f)
          | .ok (session, rc, looks) =>
              .ok ({ s with
                sessions := Function.update s.sessions a session
                looks := s.looks ++ looks }, rc)

/-- A function that is modelled by handles only. -/
def others (c : LibCall Addr) (d : LibraryChoice Addr) (s : LibraryState Addr) :
    Except (LibraryFault Addr) (LibraryState Addr × c.Reply) :=
  match clientLibrary.answer c d.call s.clients with
  | .error f => .error (.handle f)
  | .ok (clients, r) => .ok ({ s with clients := clients, sessions := d.sessions s.sessions }, r)

end LibraryState

/-- The library's answers.  A token that is not written keeps its content. -/
def sessionLibrary :
    Program.Service (LibCall Addr) LibCall.Reply (LibraryState Addr) (LibraryChoice Addr)
      (LibraryFault Addr) where
  answer c d s :=
    match c with
    | .publishMessage handle topicName msg dt =>
        (s.publishMessage handle topicName msg d).map fun (s, rc, written) =>
          (s, rc, written.getD dt)
    | .waitForCompletion handle mdt timeout => s.waitForCompletion handle mdt timeout d
    | .create handle uri clientId ptype => s.others (.create handle uri clientId ptype) d
    | .setCallbacks handle => s.others (.setCallbacks handle) d
    | .connect handle options => s.others (.connect handle options) d
    | .disconnect handle timeout => s.others (.disconnect handle timeout) d
    | .destroy handle => s.others (.destroy handle) d
    | .subscribe handle topic qos => s.others (.subscribe handle topic qos) d
    | .unsubscribe handle topic => s.others (.unsubscribe handle topic) d

/-! ## Refinement -/

variable {s s' : LibraryState Addr} {d : LibraryChoice Addr} {handle : Ptr Addr}
  {topicName : CString} {msg : Message} {rc : CInt} {written : Option CInt}

/-- `MQTTClient_publishMessage` is what its session does. -/
theorem publishMessage_of_session {a : Addr} {session : Session}
    (hderef : s.clients.deref handle = .ok a)
    (h : (s.sessions a).publishMessage topicName msg d.env d.moments = .ok (session, rc, written)) :
    s.publishMessage handle topicName msg d =
      .ok ({ s with sessions := Function.update s.sessions a session }, rc, written) := by
  simp only [LibraryState.publishMessage, hderef, h]

/-- `MQTTClient_waitForCompletion` is what its session does. -/
theorem waitForCompletion_of_session {a b : Addr} {session : Session} {mdt : CInt}
    {timeout : CULong}
    {looks : List (Option Messages)} (hderef : s.clients.deref (some a) = .ok b)
    (h : (s.sessions b).waitForCompletion mdt timeout d.moments = .ok (session, rc, looks)) :
    s.waitForCompletion (some a) mdt timeout d =
      .ok ({ s with
        sessions := Function.update s.sessions b session
        looks := s.looks ++ looks }, rc) := by
  simp only [LibraryState.waitForCompletion, hderef, h]

/-- A publish that returns ran in the session of a live client, and left the clients alone. -/
theorem session_of_publishMessage
    (h : s.publishMessage handle topicName msg d = .ok (s', rc, written)) :
    ∃ a session, s.clients.deref handle = .ok a ∧ s'.clients = s.clients ∧
      (s.sessions a).publishMessage topicName msg d.env d.moments = .ok (session, rc, written) := by
  unfold LibraryState.publishMessage at h
  rcases hderef : s.clients.deref handle with f | a
  · rw [hderef] at h
    cases h
  · rw [hderef] at h
    dsimp only at h
    rcases hpublish : (s.sessions a).publishMessage topicName msg d.env d.moments with
      f | ⟨session, rc', written'⟩
    · rw [hpublish] at h
      cases h
    · rw [hpublish] at h
      cases h
      exact ⟨a, session, rfl, rfl, hpublish⟩

/-- What a publish over the library can write. -/
theorem wrote_of_publishMessage
    (h : s.publishMessage handle topicName msg d = .ok (s', rc, written)) :
    ∃ a seen, s.clients.deref handle = .ok a ∧ seen <+: d.moments ∧
      Session.Wrote (Session.found seen (s.sessions a)) topicName msg.qos rc written := by
  obtain ⟨a, session, hderef, -, hpublish⟩ := session_of_publishMessage h
  obtain ⟨seen, hseen, hwrote⟩ := Session.publishMessage_wrote hpublish
  exact ⟨a, seen, hderef, hseen, hwrote⟩

/-- A wait that returns left the clients alone. -/
theorem answer_of_waitForCompletion {mdt : CInt} {timeout : CULong}
    (h : s.waitForCompletion handle mdt timeout d = .ok (s', rc)) :
    clientLibrary.answer (.waitForCompletion handle mdt timeout)
        ⟨rc, d.call.client, mdt⟩ s.clients =
      .ok (s'.clients, rc) := by
  unfold LibraryState.waitForCompletion at h
  rcases handle with _ | a
  · cases h
    rfl
  · rcases hderef : s.clients.deref (some a) with f | b
    · simp only [hderef] at h
      cases h
    · simp only [hderef] at h
      rcases hwait : (s.sessions b).waitForCompletion mdt timeout d.moments with
        f | ⟨session, rc', looks⟩
      · rw [hwait] at h
        cases h
      · rw [hwait] at h
        cases h
        show (s.clients.deref (some a)).map _ = _
        rw [hderef]
        rfl

/-- A publish that returns is one of the model of handles, which writes the token for
`qos > 0` only. -/
theorem answer_of_publishMessage (dt : CInt)
    (h : s.publishMessage handle topicName msg d = .ok (s', rc, written)) :
    clientLibrary.answer (.publishMessage handle topicName msg dt)
        ⟨rc, d.call.client, written.getD dt⟩ s.clients = .ok (s'.clients, rc, written.getD dt) := by
  obtain ⟨a, session, hderef, hclients, -⟩ := session_of_publishMessage h
  have htoken : (if 0 < msg.qos.toInt then written.getD dt else dt) = written.getD dt := by
    by_cases hqos : 0 < msg.qos.toInt
    · exact if_pos hqos
    · rw [if_neg hqos]
      obtain ⟨_, _, -, -, hwrote⟩ := wrote_of_publishMessage h
      cases hwrote with
      | nothing => rfl
      | own _ hqos' => exact absurd hqos' hqos
  show (s.clients.deref handle).map _ = _
  rw [hderef, hclients]
  exact congrArg (fun token => Except.ok (s.clients, rc, token)) htoken

/-- The other calls are answered as before. -/
theorem answer_of_others {c : LibCall Addr} {r : c.Reply} (h : s.others c d = .ok (s', r)) :
    clientLibrary.answer c d.call s.clients = .ok (s'.clients, r) := by
  unfold LibraryState.others at h
  rcases hans : clientLibrary.answer c d.call s.clients with f | ⟨clients, r'⟩
  · rw [hans] at h
    cases h
  · rw [hans] at h
    cases h
    rfl

/-- **Every answer of the library is one of the model of handles.** -/
theorem sessionLibrary_refines :
    Program.Service.Refines sessionLibrary clientLibrary
      (LibraryState.clients : LibraryState Addr → _) := by
  intro c d s s' r h
  cases c with
  | publishMessage handle topicName msg dt =>
      obtain ⟨⟨s₁, rc, written⟩, hpublish, heq⟩ := Except.exists_of_map h
      cases heq
      exact ⟨_, answer_of_publishMessage dt hpublish⟩
  | waitForCompletion handle mdt timeout => exact ⟨_, answer_of_waitForCompletion h⟩
  | create | setCallbacks | connect | disconnect | destroy | subscribe | unsubscribe =>
      exact ⟨_, answer_of_others h⟩

/-- **Every call over the library with sessions is a step of the wrapper's machine.** -/
theorem step_of_exec {op : WrapperOp} {g g' : Globals Addr} {o : ℕ → LibraryChoice Addr}
    {r : Option CInt} {t : CallTrace Addr}
    (h : Program.exec sessionLibrary (op.program g) o s = .ok (s', (g', r), t)) :
    ∃ choices, mqttMachine.step ⟨g, s.clients⟩ (.call op choices) =
      .ok (⟨g', s'.clients⟩, r, t) := by
  have : Nonempty (Choice Addr) := ⟨(o 0).call⟩
  obtain ⟨choices, hexec⟩ := Program.exec_of_refines sessionLibrary_refines h
  refine ⟨choices, ?_⟩
  simp only [mqttMachine, hexec, Except.map]

end Library

/-! ## The law -/

section Law

variable {Addr : Type} [DecidableEq Addr]

/-- **The token that is waited for.**  Whatever is in flight, and whatever the environment
does: if the publish in the call succeeds, every wait in the call is for the token which that
publish wrote; so there is none if it wrote nothing. -/
def PassesOwnToken (Addr : Type) [DecidableEq Addr] (topic payload : CString) (qos timeout : CInt) :
    Prop :=
  ∀ (g : Globals Addr) (dt : CInt) (t : CallTrace Addr) (out : Except CInt (Returned Addr))
    (handle : Ptr Addr) (topicName : CString) (msg : Message) (token : CInt)
    (d : LibraryChoice Addr) (s s' : LibraryState Addr) (written : Option CInt),
    s.publishMessage handle topicName msg d = .ok (s', mqttClientSuccess, written) →
    (mqttPublish topic payload qos timeout dt g).Runs
      (⟨.publishMessage handle topicName msg token, (mqttClientSuccess, written.getD token)⟩ ::
        t) out →
    ∀ handle' mdt timeout' rc, ⟨.waitForCompletion handle' mdt timeout', rc⟩ ∈ t →
      written = some mdt

/-- What can be seen of a call from its publish on: the state that it leaves, with all that its
looks at the messages in flight found, its result, and the calls after the publish. -/
def afterPublish
    (x : Except (Program.Stop CInt (LibraryFault Addr))
      (LibraryState Addr × Returned Addr × CallTrace Addr)) :
    Except (Program.Stop CInt (LibraryFault Addr))
      (LibraryState Addr × Returned Addr × CallTrace Addr) :=
  x.map fun (s, r, t) => (s, r, t.tail)

/-- **Two executions.**  Executions that differ only in what the local variable held before
the call cannot be told apart. -/
def IgnoresPriorContent (Addr : Type) [DecidableEq Addr] (topic payload : CString)
    (qos timeout : CInt) :
    Prop :=
  ∀ (g : Globals Addr) (dt dt' : CInt) (o : ℕ → LibraryChoice Addr) (s : LibraryState Addr),
    afterPublish (Program.exec sessionLibrary (mqttPublish topic payload qos timeout dt g) o s) =
      afterPublish (Program.exec sessionLibrary (mqttPublish topic payload qos timeout dt' g) o s)

/-- The message that `mqtt_publish` builds. -/
abbrev pubmsg (payload : CString) (qos : CInt) : Message :=
  ⟨(strlen payload).toCInt, payload, qos, 0⟩

variable {topic payload : CString} {qos timeout dt : CInt} {g : Globals Addr}

omit [DecidableEq Addr] in
/-- With any replies, a call publishes its message and, if that succeeds, waits once, for the
token that it finds in the variable. -/
theorem runs_publish {t : CallTrace Addr} {out : Except CInt (Returned Addr)}
    (h : (mqttPublish topic payload qos timeout dt g).Runs t out) :
    ∃ rc token rest,
      t = ⟨.publishMessage g.client topic (pubmsg payload qos) dt, (rc, token)⟩ :: rest ∧
        (rc = mqttClientSuccess →
          ∃ rc', rest = [⟨.waitForCompletion g.client token timeout.toULong, rc'⟩]) := by
  rw [mqttPublish_eq] at h
  obtain ⟨⟨rc, token⟩, rest, rfl, h⟩ := h
  refine ⟨rc, token, rest, rfl, fun hrc => ?_⟩
  dsimp only at h
  rw [if_neg (not_not_intro hrc)] at h
  obtain ⟨rc', rest', rfl, rfl, -⟩ := h
  exact ⟨rc', rfl⟩

/-- A call over the library, from its publish on. -/
theorem afterPublish_exec (o : ℕ → LibraryChoice Addr) (s : LibraryState Addr) :
    afterPublish (Program.exec sessionLibrary (mqttPublish topic payload qos timeout dt g) o s) =
      match s.publishMessage g.client topic (pubmsg payload qos) (o 0) with
      | .error f => .error (.fault f)
      | .ok (s₁, rc, written) =>
          if rc ≠ mqttClientSuccess then .error (.exited exitFailure)
          else
            match s₁.waitForCompletion g.client (written.getD dt) timeout.toULong (o 1) with
            | .error f => .error (.fault f)
            | .ok (s₂, rc') =>
                .ok (s₂, (g, none),
                  [⟨.waitForCompletion g.client (written.getD dt) timeout.toULong, rc'⟩]) := by
  rw [mqttPublish_eq]
  rcases hpublish : s.publishMessage g.client topic (pubmsg payload qos) (o 0) with
    f | ⟨s₁, rc, written⟩
  · have hans : sessionLibrary.answer
        (.publishMessage g.client topic (pubmsg payload qos) dt) (o 0) s =
        .error f := congrArg (Except.map _) hpublish
    rw [Program.exec_call_error _ hans]
    rfl
  · have hans : sessionLibrary.answer
        (.publishMessage g.client topic (pubmsg payload qos) dt) (o 0) s =
        .ok (s₁, (rc, written.getD dt)) := congrArg (Except.map _) hpublish
    rw [Program.exec_call_ok _ hans]
    by_cases hrc : rc = mqttClientSuccess
    · rw [if_neg (not_not_intro hrc)]
      dsimp only
      rw [if_neg (not_not_intro hrc)]
      rcases hwait : s₁.waitForCompletion g.client (written.getD dt) timeout.toULong (o 1) with
        f | ⟨s₂, rc'⟩
      · rw [Program.exec_call_error _ hwait]
        rfl
      · rw [Program.exec_call_ok _ hwait]
        rfl
    · rw [if_pos hrc]
      dsimp only
      rw [if_pos hrc]
      rfl

/-- The library writes a token whenever it accepts the message. -/
def WritesToken (topic : CString) (qos : CInt) : Prop :=
  0 < qos.toInt ∨ utf8ValidateString topic = false

/-- Under the condition, a publish that succeeds wrote the id of its own message. -/
theorem WritesToken.written (h : WritesToken topic qos) {msg : Message} (hmsg : msg.qos = qos)
    {d : LibraryChoice Addr} {s s' : LibraryState Addr} {handle : Ptr Addr} {written : Option CInt}
    (hpublish : s.publishMessage handle topic msg d = .ok (s', mqttClientSuccess, written)) :
    ∃ a seen own, s.clients.deref handle = .ok a ∧ seen <+: d.moments ∧ written = some own.msgid ∧
      Session.IsOwn (Session.found seen (s.sessions a)) topic qos own := by
  rcases h with hqos | hutf8
  · subst hmsg
    obtain ⟨a, seen, hderef, hseen, hwrote⟩ := wrote_of_publishMessage hpublish
    cases hwrote with
    | nothing hfail => exact absurd rfl (hfail hqos)
    | own own _ hown => exact ⟨a, seen, own, hderef, hseen, rfl, hown⟩
  · obtain ⟨a, session, -, -, hsession⟩ := session_of_publishMessage hpublish
    exact absurd rfl (Session.publishMessage_rejected hutf8 hsession)

/-- Where a token is written, it is the one that is passed on. -/
theorem passesOwnToken_of_writesToken (h : WritesToken topic qos) :
    PassesOwnToken Addr topic payload qos timeout := by
  intro g dt t out handle topicName msg token d s s' written hpublish hruns handle' mdt timeout' rc
    hmem
  obtain ⟨rc', token', rest, htrace, hrest⟩ := runs_publish hruns
  cases htrace
  obtain ⟨rc'', rfl⟩ := hrest rfl
  rw [List.mem_singleton] at hmem
  cases hmem
  obtain ⟨_, _, own, -, -, rfl, -⟩ := h.written rfl hpublish
  rfl

/-- **A call with `qos > 0` waits for its own message**: the token is the id of a message with
the topic of the call, and no message that the publish found in flight has that id. -/
theorem waits_for_own_message {d : LibraryChoice Addr} {s s' : LibraryState Addr}
    {written : Option CInt}
    {t : CallTrace Addr} {out : Except CInt (Returned Addr)} (hqos : 0 < qos.toInt)
    (hpublish : s.publishMessage g.client topic (pubmsg payload qos) d =
      .ok (s', mqttClientSuccess, written))
    (h : (mqttPublish topic payload qos timeout dt g).Runs
      (⟨.publishMessage g.client topic (pubmsg payload qos) dt,
        (mqttClientSuccess, written.getD dt)⟩ :: t)
      out) :
    ∃ a seen own rc, s.clients.deref g.client = .ok a ∧ seen <+: d.moments ∧
      Session.IsOwn (Session.found seen (s.sessions a)) topic qos own ∧
      t = [⟨.waitForCompletion g.client own.msgid timeout.toULong, rc⟩] := by
  obtain ⟨a, seen, own, hderef, hseen, rfl, hown⟩ := WritesToken.written (Or.inl hqos) rfl hpublish
  obtain ⟨_, _, rest, htrace, hrest⟩ := runs_publish h
  cases htrace
  obtain ⟨rc, rfl⟩ := hrest rfl
  exact ⟨a, seen, own, rc, hderef, hseen, hown, rfl⟩

/-- Where a token is written, what the local held before does not matter. -/
theorem ignoresPriorContent_of_writesToken (h : WritesToken topic qos) :
    IgnoresPriorContent Addr topic payload qos timeout := by
  intro g dt dt' o s
  rw [afterPublish_exec, afterPublish_exec]
  rcases hpublish : s.publishMessage g.client topic (pubmsg payload qos) (o 0) with
    f | ⟨s₁, rc, written⟩
  · rfl
  · dsimp only
    by_cases hrc : rc = mqttClientSuccess
    · subst hrc
      obtain ⟨_, _, own, -, -, rfl, -⟩ := h.written rfl hpublish
      rfl
    · rw [if_pos hrc, if_pos hrc]

/-! ## Calls that write nothing -/

/-- A session with nothing in flight, as `mqtt_open_connection` leaves it. -/
def openSession : Session := ⟨true, true, 0, 1, [], 4⟩

/-- Nobody else did anything; the socket is free, and the time is `elapsed`. -/
def quiet (elapsed : CULong) : Moment := ⟨id, true, false, elapsed⟩

/-- Every allocation succeeds, and the packet is sent. -/
def unhindered : Sending := ⟨true, true, true, true, true, true, 0⟩

/-- With `qos ≤ 0` an open session publishes, and nothing is written. -/
theorem publish_unwritten (msg : Message) (hqos : ¬ 0 < msg.qos.toInt)
    (hutf8 : utf8ValidateString topic = true)
    (elapsed : CULong) :
    openSession.publishMessage topic msg unhindered [quiet elapsed] =
      .ok (openSession, mqttClientSuccess, none) :=
  Session.publishMessage_unwritten hqos hutf8 rfl rfl (show (0 : ℤ) < 1 by decide) rfl
    ⟨rfl, rfl, rfl⟩ rfl

/-- One live client with an open session. -/
def openLibrary (a : Addr) : LibraryState Addr := ⟨⟨{a}⟩, fun _ => openSession, []⟩

theorem openLibrary_deref (a : Addr) : (openLibrary a).clients.deref (some a) = .ok a :=
  if_pos (Finset.mem_singleton_self a)

theorem openLibrary_update (a : Addr) :
    Function.update (openLibrary a).sessions a openSession = (openLibrary a).sessions :=
  Function.update_eq_self a _

/-- The time of the call is up at once. -/
def timedOut (a : Addr) (timeout : CInt) : LibraryChoice Addr :=
  ⟨[quiet timeout.toULong], unhindered, ⟨0, a, 0⟩, id⟩

/-- The publish of a call with `qos ≤ 0` succeeds, and writes nothing. -/
theorem openLibrary_publishMessage (a : Addr) (hqos : ¬ 0 < qos.toInt)
    (hutf8 : utf8ValidateString topic = true) :
    (openLibrary a).publishMessage (some a) topic (pubmsg payload qos) (timedOut a timeout) =
      .ok (openLibrary a, mqttClientSuccess, none) := by
  rw [publishMessage_of_session (openLibrary_deref a)
    (publish_unwritten (pubmsg payload qos) hqos hutf8 timeout.toULong), openLibrary_update]

/-- A call that writes nothing waits for what the variable held. -/
theorem afterPublish_unwritten (a : Addr) (hqos : ¬ 0 < qos.toInt)
    (hutf8 : utf8ValidateString topic = true)
    (hg : g.client = some a) :
    afterPublish (Program.exec sessionLibrary (mqttPublish topic payload qos timeout dt g)
        (fun _ => timedOut a timeout) (openLibrary a)) =
      .ok (openLibrary a, (g, none),
        [⟨.waitForCompletion (some a) dt timeout.toULong, mqttClientFailure⟩]) := by
  have hwait : (openLibrary a).waitForCompletion (some a) dt timeout.toULong (timedOut a timeout) =
      .ok (openLibrary a, mqttClientFailure) := by
    have hlate : openSession.waitForCompletion dt timeout.toULong [quiet timeout.toULong] =
        .ok (openSession, mqttClientFailure, []) := if_neg (BitVec.lt_irrefl _)
    rw [waitForCompletion_of_session (openLibrary_deref a) hlate, openLibrary_update,
      List.append_nil]
  rw [afterPublish_exec, hg, openLibrary_publishMessage a hqos hutf8]
  dsimp only
  rw [if_neg (not_not_intro rfl), Option.getD_none, hwait]

/-- Where no token is written, the call waits for another one. -/
theorem not_passesOwnToken (a : Addr) (hqos : ¬ 0 < qos.toInt)
    (hutf8 : utf8ValidateString topic = true) :
    ¬ PassesOwnToken Addr topic payload qos timeout := by
  intro hpasses
  have hruns : (mqttPublish topic payload qos timeout 0 ⟨some a, connectOptionsInitializer⟩).Runs
      [⟨.publishMessage (some a) topic (pubmsg payload qos) 0, (mqttClientSuccess, 0)⟩,
        ⟨.waitForCompletion (some a) 0 timeout.toULong, mqttClientFailure⟩]
      (.ok (⟨some a, connectOptionsInitializer⟩, none)) :=
    ⟨_, _, rfl, _, _, rfl, rfl, rfl⟩
  have hwritten : (none : Option CInt) = some 0 :=
    hpasses _ _ _ _ _ _ _ _ (timedOut a timeout) (openLibrary a) (openLibrary a) none
      (openLibrary_publishMessage a hqos hutf8) hruns _ _ _ _ List.mem_cons_self
  cases hwritten

/-- Where no token is written, the return depends on what the local held before. -/
theorem not_ignoresPriorContent (a : Addr) (hqos : ¬ 0 < qos.toInt)
    (hutf8 : utf8ValidateString topic = true) :
    ¬ IgnoresPriorContent Addr topic payload qos timeout := by
  intro hignores
  have hsame := hignores ⟨some a, connectOptionsInitializer⟩ 0 1 (fun _ => timedOut a timeout)
    (openLibrary a)
  rw [afterPublish_unwritten a hqos hutf8 rfl, afterPublish_unwritten a hqos hutf8 rfl] at hsame
  cases hsame

/-- A call writes a token unless it has `qos ≤ 0` and a topic that is UTF-8. -/
theorem not_writesToken :
    ¬ WritesToken topic qos ↔ ¬ 0 < qos.toInt ∧ utf8ValidateString topic = true := by
  rw [WritesToken, not_or, Bool.not_eq_false]

/-- **Which calls wait for their own message.**  Whatever is in flight, whatever the other
threads, the network and the allocator do, and whatever the local variable held: the token
that is waited for is the one which the call's own publish wrote, and executions that differ
in the variable only cannot be told apart, exactly when `qos > 0`, or when the topic is not
UTF-8, so that nothing is published. -/
theorem delivery_token_law [Inhabited Addr] (topic payload : CString) (qos timeout : CInt) :
    (PassesOwnToken Addr topic payload qos timeout ↔ WritesToken topic qos) ∧
      (IgnoresPriorContent Addr topic payload qos timeout ↔ WritesToken topic qos) := by
  refine ⟨⟨fun hpasses => ?_, passesOwnToken_of_writesToken⟩,
    fun hignores => ?_, ignoresPriorContent_of_writesToken⟩
  · by_contra hnot
    obtain ⟨hqos, hutf8⟩ := not_writesToken.mp hnot
    exact not_passesOwnToken default hqos hutf8 hpasses
  · by_contra hnot
    obtain ⟨hqos, hutf8⟩ := not_writesToken.mp hnot
    exact not_ignoresPriorContent default hqos hutf8 hignores

/-! ## A wait for another message -/

/-- `"data/haha"`. -/
def dataTopic : CString := [0x64, 0x61, 0x74, 0x61, 0x2F, 0x68, 0x61, 0x68, 0x61]

/-- `"message"`. -/
def messagePayload : CString := [0x6D, 0x65, 0x73, 0x73, 0x61, 0x67, 0x65]

/-- What the session is after another thread published a message with `qos = 1`. -/
def otherPublish (s : Session) : Session :=
  match s.publishMessage dataTopic (pubmsg messagePayload 1) unhindered [quiet 0] with
  | .ok (s, _) => s
  | .error _ => s

/-- The message of the other thread, the first of the session. -/
def otherMessage : Messages := ⟨1, 0, 1, dataTopic, messagePayload, 7⟩

/-- The other thread publishes when the call has published, and gets no reply within 10 s. -/
def otherInFlight (n : ℕ) : LibraryChoice ℕ :=
  ⟨if n = 0 then [quiet 0] else [⟨otherPublish, true, false, 0⟩, quiet 5000, quiet 10000],
    unhindered, ⟨0, 1, 0⟩, id⟩

/-- A call with `qos = 0` whose local variable held `dt`: what its looks at the messages in
flight found, and the calls after its publish. -/
def publishUnwritten (dt : CInt) :
    Except (Program.Stop CInt (LibraryFault ℕ)) (List (Option Messages) × CallTrace ℕ) :=
  (afterPublish (Program.exec sessionLibrary (mqttPublish dataTopic messagePayload 0 10000 dt
    ⟨some 1, connectOptionsInitializer⟩) otherInFlight (openLibrary 1))).map fun (s, _, t) =>
      (s.looks, t)

/-- If the variable held 1, the call waits 10 s for the message of the other thread, and if it
held 0, not at all. -/
theorem waits_for_other_message :
    publishUnwritten 1 =
        .ok ([some otherMessage, some otherMessage],
          [⟨.waitForCompletion (some 1) 1 10000, mqttClientFailure⟩]) ∧
      publishUnwritten 0 =
        .ok ([none], [⟨.waitForCompletion (some 1) 0 10000, mqttClientSuccess⟩]) ∧
      ¬ PassesOwnToken ℕ dataTopic messagePayload 0 10000 ∧
      ¬ IgnoresPriorContent ℕ dataTopic messagePayload 0 10000 := by
  have hone : publishUnwritten 1 =
      .ok ([some otherMessage, some otherMessage],
        [⟨.waitForCompletion (some 1) 1 10000, mqttClientFailure⟩]) := rfl
  have hzero : publishUnwritten 0 =
      .ok ([none], [⟨.waitForCompletion (some 1) 0 10000, mqttClientSuccess⟩]) := rfl
  refine ⟨hone, hzero, not_passesOwnToken 1 (by decide) rfl, fun hignores => ?_⟩
  have hsame : publishUnwritten 1 = publishUnwritten 0 := congrArg (Except.map _)
    (hignores ⟨some 1, connectOptionsInitializer⟩ 1 0 otherInFlight (openLibrary 1))
  rw [hone, hzero] at hsame
  cases hsame

end Law
