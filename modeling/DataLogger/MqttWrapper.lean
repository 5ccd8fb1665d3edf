/-
# The MQTT wrapper (`mqtt.c`)

The five functions that the logger calls, each a program over the client library.  All
of them work on one global handle, `client`.  The messages they print are left out.

`mqtt_publish` declares an `int` result but has no `return`: its result is `none` here,
an indeterminate value for the caller.
-/
import DataLogger.MqttLibrary
import DataLogger.Library.Machine

/-! ## The functions -/

section Functions

variable {Addr : Type}

/-- The global variables of `mqtt.c`. -/
structure Globals (Addr : Type) where
  client : Ptr Addr
  connOpts : ConnectOptions
  deriving DecidableEq

/-- The globals when the process starts. -/
def initialGlobals : Globals Addr := ⟨none, connectOptionsInitializer⟩

/-- What a function of the wrapper leaves: the globals, and its result if it has one. -/
abbrev Returned (Addr : Type) := Globals Addr × Option CInt

/-- `EXIT_FAILURE`. -/
def exitFailure : CInt := 1

/-- `mqtt_open_connection`. -/
def mqttOpenConnection (address clientId : CString) (g : Globals Addr) :
    ClientCode Addr (Returned Addr) := do
  let (rc, client) ← MQTTClient.create g.client address clientId mqttClientPersistenceNone
  let g := { g with client := client }
  if rc ≠ mqttClientSuccess then
    return (g, some (-1))
  let rc ← MQTTClient.setCallbacks g.client
  if rc ≠ mqttClientSuccess then
    return (g, some (-1))
  let g := { g with connOpts := { g.connOpts with keepAliveInterval := 20 } }
  let g := { g with connOpts := { g.connOpts with cleansession := 1 } }
  let rc ← MQTTClient.connect g.client g.connOpts
  if rc ≠ mqttClientSuccess then
    return (g, some (-1))
  return (g, some 0)

/-- `mqtt_disconnect`. -/
def mqttDisconnect (g : Globals Addr) : ClientCode Addr (Returned Addr) := do
  let rc ← MQTTClient.disconnect g.client 10000
  if rc ≠ mqttClientSuccess then
    return (g, some (-1))
  let client ← MQTTClient.destroy g.client
  let g := { g with client := client }
  return (g, some 0)

/-- `mqtt_subscribe`. -/
def mqttSubscribe (topic : CString) (qos : CInt) (g : Globals Addr) :
    ClientCode Addr (Returned Addr) := do
  let rc ← MQTTClient.subscribe g.client topic qos
  if rc ≠ mqttClientSuccess then
    return (g, some (-1))
  return (g, some 0)

/-- `mqtt_unsubcribe`. -/
def mqttUnsubcribe (topic : CString) (g : Globals Addr) : ClientCode Addr (Returned Addr) := do
  let rc ← MQTTClient.unsubscribe g.client topic
  if rc ≠ mqttClientSuccess then
    return (g, some (-1))
  return (g, some 0)

/-- `mqtt_publish`; `deliveredtoken` is the indeterminate content of the local variable
of that name. -/
def mqttPublish (topic payload : CString) (qos timeout : CInt) (deliveredtoken : CInt)
    (g : Globals Addr) : ClientCode Addr (Returned Addr) := do
  let pubmsg := messageInitializer
  let pubmsg := { pubmsg with payload := payload }
  let pubmsg := { pubmsg with payloadlen := (strlen payload).toCInt }
  let pubmsg := { pubmsg with qos := qos }
  let pubmsg := { pubmsg with retained := 0 }
  let (rc, deliveredtoken) ← MQTTClient.publishMessage g.client topic pubmsg deliveredtoken
  if rc ≠ mqttClientSuccess then
    Program.exit exitFailure
  else
    -- the code of the wait is stored in `rc`, and nothing reads it
    let _ ← MQTTClient.waitForCompletion g.client deliveredtoken timeout.toULong
    return (g, none)

end Functions

/-! ## Runs of the wrapper -/

section Runs

variable {Addr : Type}

/-- A call of a wrapper function. -/
inductive WrapperOp
  | openConnection (address clientId : CString)
  | disconnect
  | subscribe (topic : CString) (qos : CInt)
  | unsubcribe (topic : CString)
  | publish (topic payload : CString) (qos timeout deliveredtoken : CInt)
  deriving DecidableEq

/-- The function that is called. -/
def WrapperOp.program (g : Globals Addr) : WrapperOp → ClientCode Addr (Returned Addr)
  | .openConnection address clientId => mqttOpenConnection address clientId g
  | .disconnect => mqttDisconnect g
  | .subscribe topic qos => mqttSubscribe topic qos g
  | .unsubcribe topic => mqttUnsubcribe topic g
  | .publish topic payload qos timeout dt => mqttPublish topic payload qos timeout dt g

/-- The logger and the library it runs on. -/
structure MqttState (Addr : Type) where
  globals : Globals Addr
  clients : ClientState Addr

/-- A call of a wrapper function with the library's choices in the calls it makes, or
the loss of a client's connection in between. -/
inductive MqttEvent (Addr : Type)
  | call (op : WrapperOp) (choices : ℕ → Choice Addr)
  | connectionLost (client : Addr)

/-- What a call of the wrapper shows: its result, if it has one, and the calls of the
library. -/
abbrev Observation (Addr : Type) := Option CInt × CallTrace Addr

/-- The wrapper as a machine.  It stops when the process ends or a handle that is `NULL`
or destroyed is followed. -/
def mqttMachine [DecidableEq Addr] :
    Machine (MqttState Addr) (MqttEvent Addr) (Observation Addr)
      (Program.Stop CInt (Heap.Fault Addr)) where
  step s
    | .call op choices =>
        (Program.exec clientLibrary (op.program s.globals) choices s.clients).map
          fun (clients, (g, result), t) => (⟨g, clients⟩, result, t)
    -- the callback `connection_lost` prints, and the library drops nothing but the session
    | .connectionLost _ => .ok (s, none, [])

/-- The process when it starts: no client was created. -/
def initialMqtt : MqttState Addr := ⟨initialGlobals, ⟨∅⟩⟩

/-! ## What each function does

The functions as trees of calls, and then one equation per path over the library. -/

section Paths

variable (g : Globals Addr) {c : ClientState Addr} {o : ℕ → Choice Addr} {a : Addr}

/-- The calls of `mqtt_open_connection`. -/
theorem mqttOpenConnection_eq (address clientId : CString) :
    mqttOpenConnection address clientId g =
      .call (.create g.client address clientId mqttClientPersistenceNone)
        fun (r : CInt × Ptr Addr) =>
          if r.1 ≠ mqttClientSuccess then .ret (⟨r.2, g.connOpts⟩, some (-1))
          else .call (.setCallbacks r.2) fun (rc : CInt) =>
            if rc ≠ mqttClientSuccess then .ret (⟨r.2, g.connOpts⟩, some (-1))
            else .call (.connect r.2 ⟨20, 1⟩) fun (rc : CInt) =>
              if rc ≠ mqttClientSuccess then .ret (⟨r.2, ⟨20, 1⟩⟩, some (-1))
              else .ret (⟨r.2, ⟨20, 1⟩⟩, some 0) := rfl

/-- The calls of `mqtt_disconnect`. -/
theorem mqttDisconnect_eq :
    mqttDisconnect g =
      .call (.disconnect g.client 10000) fun (rc : CInt) =>
        if rc ≠ mqttClientSuccess then .ret (g, some (-1))
        else .call (.destroy g.client) fun (client : Ptr Addr) =>
          .ret (⟨client, g.connOpts⟩, some 0) := rfl

/-- The calls of `mqtt_subscribe`. -/
theorem mqttSubscribe_eq (topic : CString) (qos : CInt) :
    mqttSubscribe topic qos g =
      .call (.subscribe g.client topic qos) fun (rc : CInt) =>
        if rc ≠ mqttClientSuccess then .ret (g, some (-1)) else .ret (g, some 0) := rfl

/-- The calls of `mqtt_unsubcribe`. -/
theorem mqttUnsubcribe_eq (topic : CString) :
    mqttUnsubcribe topic g =
      .call (.unsubscribe g.client topic) fun (rc : CInt) =>
        if rc ≠ mqttClientSuccess then .ret (g, some (-1)) else .ret (g, some 0) := rfl

/-- The calls of `mqtt_publish`. -/
theorem mqttPublish_eq (topic payload : CString) (qos timeout dt : CInt) :
    mqttPublish topic payload qos timeout dt g =
      .call (.publishMessage g.client topic ⟨(strlen payload).toCInt, payload, qos, 0⟩ dt)
        fun (r : CInt × CInt) =>
          if r.1 ≠ mqttClientSuccess then .exit exitFailure
          else .call (.waitForCompletion g.client r.2 timeout.toULong) fun (_ : CInt) =>
            .ret (g, none) := rfl

/-- Whatever the library answers, an open asks for a clean session. -/
theorem open_connects_clean {address clientId : CString} {t : CallTrace Addr}
    {out : Except CInt (Returned Addr)} (h : (mqttOpenConnection address clientId g).Runs t out)
    {handle : Ptr Addr} {options : ConnectOptions} {rc : CInt}
    (hmem : ⟨.connect handle options, rc⟩ ∈ t) : options.cleansession = 1 := by
  rw [mqttOpenConnection_eq] at h
  obtain ⟨r₀, t₀, rfl, h⟩ := h
  dsimp only at h
  split_ifs at h
  · obtain ⟨rfl, -⟩ := h
    simp at hmem
  · obtain ⟨r₁, t₁, rfl, h⟩ := h
    dsimp only at h
    split_ifs at h
    · obtain ⟨rfl, -⟩ := h
      simp at hmem
    · obtain ⟨r₂, t₂, rfl, h⟩ := h
      dsimp only at h
      split_ifs at h
      all_goals
        obtain ⟨rfl, -⟩ := h
        simp only [List.mem_cons, Sigma.mk.injEq, reduceCtorEq, false_and, List.not_mem_nil,
          or_false,
          false_or, LibCall.connect.injEq] at hmem
        rw [hmem.1.2]

variable [DecidableEq Addr]

/-- Opening fails with `MQTTClient_create`: nothing was created. -/
theorem open_create_failed (address clientId : CString) (hrc : (o 0).rc ≠ mqttClientSuccess) :
    Program.Returns clientLibrary (mqttOpenConnection address clientId g) o c c (g, some (-1)) := by
  rw [mqttOpenConnection_eq]
  apply Program.returns_call (answer_create_failed _ _ _ _ hrc)
  rw [if_pos hrc]
  apply Program.returns_ret

/-- Opening once `MQTTClient_create` succeeded: the new client is live, and the handle
denotes it, whatever happens next. -/
theorem open_created (address clientId : CString) (hrc : (o 0).rc = mqttClientSuccess) :
    ∃ opts, Program.Returns clientLibrary (mqttOpenConnection address clientId g) o c
      ⟨insert (o 0).client c.live⟩
      (⟨some (o 0).client, opts⟩,
        if (o 1).rc = mqttClientSuccess ∧ (o 2).rc = mqttClientSuccess then some 0
        else some (-1)) := by
  have hmem : (o 0).client ∈ insert (o 0).client c.live := Finset.mem_insert_self _ _
  rw [mqttOpenConnection_eq]
  by_cases h1 : (o 1).rc = mqttClientSuccess
  · refine ⟨⟨20, 1⟩, Program.returns_call (answer_create _ _ _ _ hrc) ?_⟩
    rw [if_neg (not_not_intro hrc)]
    apply Program.returns_call (answer_setCallbacks hmem)
    rw [if_neg (not_not_intro h1)]
    apply Program.returns_call (answer_connect hmem _)
    by_cases h2 : (o 2).rc = mqttClientSuccess
    · rw [if_neg (not_not_intro h2), if_pos ⟨h1, h2⟩]
      apply Program.returns_ret
    · rw [if_pos h2, if_neg fun h => h2 h.2]
      apply Program.returns_ret
  · refine ⟨g.connOpts, Program.returns_call (answer_create _ _ _ _ hrc) ?_⟩
    rw [if_neg (not_not_intro hrc)]
    apply Program.returns_call (answer_setCallbacks hmem)
    rw [if_pos h1, if_neg fun h => h1 h.1]
    apply Program.returns_ret

/-- Disconnecting without a client fails at once. -/
theorem disconnect_null (hg : g.client = none) :
    Program.Returns clientLibrary (mqttDisconnect g) o c c (g, some (-1)) := by
  rw [mqttDisconnect_eq, hg]
  apply Program.returns_call (answer_disconnect_null _)
  rw [if_pos (by decide)]
  apply Program.returns_ret

/-- Disconnecting a live client destroys it. -/
theorem disconnect_live (hg : g.client = some a) (ha : a ∈ c.live) :
    Program.Returns clientLibrary (mqttDisconnect g) o c ⟨c.live.erase a⟩
      (⟨none, g.connOpts⟩, some 0) := by
  rw [mqttDisconnect_eq, hg]
  apply Program.returns_call (answer_disconnect ha _)
  rw [if_neg (not_not_intro rfl)]
  apply Program.returns_call (answer_destroy ha)
  apply Program.returns_ret

/-- `if (rc != MQTTCLIENT_SUCCESS) return -1; return 0` returns, whatever the code is. -/
theorem returns_checked (rc : CInt) :
    ∃ r, Program.Returns clientLibrary
      (if rc ≠ mqttClientSuccess then .ret (g, some (-1)) else .ret (g, some 0) :
        ClientCode Addr (Returned Addr)) o c c (g, r) := by
  by_cases hrc : rc = mqttClientSuccess
  · rw [if_neg (not_not_intro hrc)]
    exact ⟨some 0, Program.returns_ret _ o c⟩
  · rw [if_pos hrc]
    exact ⟨some (-1), Program.returns_ret _ o c⟩

/-- Subscribing without a client follows the `NULL` handle. -/
theorem subscribe_null (hg : g.client = none) (topic : CString) (qos : CInt) :
    Program.Stops clientLibrary (mqttSubscribe topic qos g) o c (.fault .null) := by
  rw [mqttSubscribe_eq, hg]
  exact Program.stops_fault (answer_subscribe_null topic qos)

/-- Subscribing with a live client returns and leaves the clients alone. -/
theorem subscribe_live (hg : g.client = some a) (ha : a ∈ c.live) (topic : CString) (qos : CInt) :
    ∃ r, Program.Returns clientLibrary (mqttSubscribe topic qos g) o c c (g, r) := by
  rw [mqttSubscribe_eq, hg]
  obtain ⟨r, hret⟩ := returns_checked g (o 0).rc
  exact ⟨r, Program.returns_call (answer_subscribe ha topic qos) hret⟩

/-- Unsubscribing without a client fails at once. -/
theorem unsubcribe_null (hg : g.client = none) (topic : CString) :
    Program.Returns clientLibrary (mqttUnsubcribe topic g) o c c (g, some (-1)) := by
  rw [mqttUnsubcribe_eq, hg]
  apply Program.returns_call (answer_unsubscribe_null topic)
  rw [if_pos (by decide)]
  apply Program.returns_ret

/-- Unsubscribing with a live client returns and leaves the clients alone. -/
theorem unsubcribe_live (hg : g.client = some a) (ha : a ∈ c.live) (topic : CString) :
    ∃ r, Program.Returns clientLibrary (mqttUnsubcribe topic g) o c c (g, r) := by
  rw [mqttUnsubcribe_eq, hg]
  obtain ⟨r, hret⟩ := returns_checked g (o 0).rc
  exact ⟨r, Program.returns_call (answer_unsubscribe ha topic) hret⟩

/-- Publishing without a client follows the `NULL` handle. -/
theorem publish_null (hg : g.client = none) (topic payload : CString) (qos timeout dt : CInt) :
    Program.Stops clientLibrary (mqttPublish topic payload qos timeout dt g) o c
      (.fault .null) := by
  rw [mqttPublish_eq, hg]
  exact Program.stops_fault (answer_publishMessage_null _ _ _)

/-- Publishing with a live client leaves the clients alone, unless it ends the process. -/
theorem publish_live (hg : g.client = some a) (ha : a ∈ c.live) (topic payload : CString)
    (qos timeout dt : CInt) :
    Program.Returns clientLibrary (mqttPublish topic payload qos timeout dt g) o c c (g, none) ∨
      Program.Stops clientLibrary (mqttPublish topic payload qos timeout dt g) o c
        (.exited exitFailure) := by
  rw [mqttPublish_eq, hg]
  by_cases hrc : (o 0).rc = mqttClientSuccess
  · left
    apply Program.returns_call (answer_publishMessage ha _ _ _)
    rw [if_neg (not_not_intro hrc)]
    apply Program.returns_call (answer_waitForCompletion ha _ _)
    apply Program.returns_ret
  · right
    apply Program.stops_call (answer_publishMessage ha _ _ _)
    rw [if_pos hrc]
    apply Program.stops_exit

end Paths

/-! ## What each step does -/

section Steps

variable {s s' : MqttState Addr} {op : WrapperOp} {o : ℕ → Choice Addr} {c : ClientState Addr}
  {g : Globals Addr} {r : Option CInt} {t : CallTrace Addr}

/-- The handle denotes a live client. -/
def ClientLive (s : MqttState Addr) : Prop := ∃ a, s.globals.client = some a ∧ a ∈ s.clients.live

/-- The handle, if there is one, denotes a live client. -/
def ValidHandle (s : MqttState Addr) : Prop := ∀ a, s.globals.client = some a → a ∈ s.clients.live

variable [DecidableEq Addr]

/-- An operation that returns is a step. -/
theorem step_of_returns (op : WrapperOp)
    (h : Program.Returns clientLibrary (op.program s.globals) o s.clients c (g, r)) :
    ∃ t, mqttMachine.step s (.call op o) = .ok (⟨g, c⟩, r, t) := by
  obtain ⟨t, ht⟩ := h
  refine ⟨t, ?_⟩
  simp only [mqttMachine, ht, Except.map]

/-- An operation that stops ends the run. -/
theorem step_of_stops (op : WrapperOp) {stop : Program.Stop CInt (Heap.Fault Addr)}
    (h : Program.Stops clientLibrary (op.program s.globals) o s.clients stop) :
    mqttMachine.step s (.call op o) = .error stop := by
  unfold Program.Stops at h
  simp only [mqttMachine, h, Except.map]

/-- A step on a call that returned ran the function to its end. -/
theorem exec_of_step (h : mqttMachine.step s (.call op o) = .ok (s', r, t)) :
    Program.exec clientLibrary (op.program s.globals) o s.clients =
      .ok (s'.clients, (s'.globals, r), t) := by
  obtain ⟨⟨c, ⟨g, r'⟩, t'⟩, hexec, heq⟩ := Except.exists_of_map h
  cases heq
  exact hexec

/-- A step on a call that stopped stopped in the function. -/
theorem stops_of_step {stop : Program.Stop CInt (Heap.Fault Addr)}
    (h : mqttMachine.step s (.call op o) = .error stop) :
    Program.Stops clientLibrary (op.program s.globals) o s.clients stop := by
  unfold Program.Stops
  rcases hexec : Program.exec clientLibrary (op.program s.globals) o s.clients with
    stop' | ⟨c, ⟨g, r⟩, t⟩
  · rw [step_of_stops op hexec] at h
    cases h
    rfl
  · simp only [mqttMachine, hexec, Except.map] at h
    cases h

/-- What a step that returns did to the clients. -/
inductive Effect (s s' : MqttState Addr) : MqttEvent Addr → Option CInt → Prop
  /-- Nothing: the handle and the live clients are as they were. -/
  | none {e : MqttEvent Addr} {r : Option CInt} (client : s'.globals.client = s.globals.client)
      (live : s'.clients.live = s.clients.live) : Effect s s' e r
  /-- A client was created, and the handle denotes it. -/
  | created {address clientId : CString} {o : ℕ → Choice Addr}
      (rc : (o 0).rc = mqttClientSuccess) (client : s'.globals.client = some (o 0).client)
      (live : s'.clients.live = insert (o 0).client s.clients.live) :
      Effect s s' (.call (.openConnection address clientId) o)
        (if (o 1).rc = mqttClientSuccess ∧ (o 2).rc = mqttClientSuccess then some 0 else some (-1))
  /-- The client of the handle was destroyed, and the handle is `NULL`. -/
  | destroyed {a : Addr} {o : ℕ → Choice Addr} (old : s.globals.client = some a)
      (client : s'.globals.client = Option.none) (live : s'.clients.live = s.clients.live.erase a) :
      Effect s s' (.call .disconnect o) (some 0)

/-- The calls that follow the handle before anything tests it. -/
def FollowsHandle : MqttEvent Addr → Prop
  | .call (.subscribe ..) _ | .call (.publish ..) _ => True
  | .call (.openConnection ..) _ | .call .disconnect _ | .call (.unsubcribe ..) _
  | .connectionLost _ => False

instance : DecidablePred fun e : MqttEvent Addr => FollowsHandle e
  | .call (.subscribe ..) _ | .call (.publish ..) _ => isTrue trivial
  | .call (.openConnection ..) _ | .call .disconnect _ | .call (.unsubcribe ..) _
  | .connectionLost _ => isFalse id

/-- A call that returns with the handle and the clients as they were has no effect. -/
theorem effect_of_returns (op : WrapperOp) {g' : Globals Addr}
    (hclient : g'.client = s.globals.client)
    (h : Program.Returns clientLibrary (op.program s.globals) o s.clients s.clients (g', r)) :
    ∃ s' r t, mqttMachine.step s (.call op o) = .ok (s', r, t) ∧ Effect s s' (.call op o) r := by
  obtain ⟨t, hstep⟩ := step_of_returns op h
  exact ⟨_, r, t, hstep, .none hclient rfl⟩

/-- **One step.**  With a valid handle, a call has one of the three effects, or ends the
process, or follows the handle although it is `NULL`. -/
theorem step_cases (hv : ValidHandle s) (e : MqttEvent Addr) :
    (∃ s' r t, mqttMachine.step s e = .ok (s', r, t) ∧ Effect s s' e r) ∨
      mqttMachine.step s e = .error (.exited exitFailure) ∨
      (mqttMachine.step s e = .error (.fault .null) ∧ FollowsHandle e ∧
      s.globals.client = none) := by
  rcases e with ⟨op, o⟩ | client
  · rcases op with ⟨address, clientId⟩ | _ | ⟨topic, qos⟩ | ⟨topic⟩ |
      ⟨topic, payload, qos, timeout, dt⟩
    · left
      by_cases hrc : (o 0).rc = mqttClientSuccess
      · obtain ⟨opts, hret⟩ := open_created (c := s.clients) s.globals address clientId hrc
        obtain ⟨t, hstep⟩ := step_of_returns (.openConnection address clientId) hret
        exact ⟨_, _, t, hstep, .created hrc rfl rfl⟩
      · exact effect_of_returns (.openConnection address clientId) rfl
          (open_create_failed s.globals address clientId hrc)
    · left
      rcases hclient : s.globals.client with _ | a
      · exact effect_of_returns .disconnect rfl (disconnect_null s.globals hclient)
      · have hret := disconnect_live (o := o) s.globals hclient (hv a hclient)
        obtain ⟨t, hstep⟩ := step_of_returns .disconnect hret
        exact ⟨_, _, t, hstep, .destroyed hclient rfl rfl⟩
    · rcases hclient : s.globals.client with _ | a
      · right; right
        exact ⟨step_of_stops (.subscribe topic qos) (subscribe_null s.globals hclient topic qos),
          trivial, rfl⟩
      · left
        obtain ⟨r, hret⟩ := subscribe_live s.globals hclient (hv a hclient) topic qos
        exact effect_of_returns (.subscribe topic qos) rfl hret
    · left
      rcases hclient : s.globals.client with _ | a
      · exact effect_of_returns (.unsubcribe topic) rfl (unsubcribe_null s.globals hclient topic)
      · obtain ⟨r, hret⟩ := unsubcribe_live s.globals hclient (hv a hclient) topic
        exact effect_of_returns (.unsubcribe topic) rfl hret
    · rcases hclient : s.globals.client with _ | a
      · right; right
        exact ⟨step_of_stops (.publish topic payload qos timeout dt)
          (publish_null s.globals hclient topic payload qos timeout dt), trivial, rfl⟩
      · have hcall :=
          publish_live (o := o) s.globals hclient (hv a hclient) topic payload qos timeout dt
        rcases hcall with hret | hexit
        · left
          exact effect_of_returns (.publish topic payload qos timeout dt) rfl hret
        · right; left
          exact step_of_stops (.publish topic payload qos timeout dt) hexit
  · exact Or.inl ⟨_, _, _, rfl, .none rfl rfl⟩

/-- The effect of a step that returned. -/
theorem effect_of_step (hv : ValidHandle s) {e : MqttEvent Addr}
    (h : mqttMachine.step s e = .ok (s', r, t)) : Effect s s' e r := by
  rcases step_cases hv e with ⟨u, r', t', hstep, heffect⟩ | hstop | ⟨hstop, -⟩
  · rw [hstep] at h
    cases h
    exact heffect
  · rw [hstop] at h
    cases h
  · rw [hstop] at h
    cases h

/-- Every step that returns leaves a valid handle. -/
theorem validHandle_step (hv : ValidHandle s) {e : MqttEvent Addr}
    (h : mqttMachine.step s e = .ok (s', r, t)) : ValidHandle s' := by
  intro a ha
  cases effect_of_step hv h with
  | none client live =>
      rw [live]
      exact hv a (client ▸ ha)
  | created _ client live =>
      rw [client, Option.some.injEq] at ha
      rw [live, ha]
      exact Finset.mem_insert_self a _
  | destroyed _ client _ =>
      rw [client] at ha
      cases ha

omit [DecidableEq Addr] in
/-- At first there is no client, and no handle. -/
theorem validHandle_initial : ValidHandle (initialMqtt : MqttState Addr) := by
  intro a ha
  cases ha

end Steps

end Runs
