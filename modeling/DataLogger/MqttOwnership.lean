/-
# Who owns the MQTT clients

Two results about every run of the wrapper functions from the start of the process, with
any choices of the library:

* `client_ownership_law` : exactly when the one handle keeps every live client in reach.
  `mqtt_open_connection` overwrites the handle and does not destroy the client when a
  later call of its sequence fails, so an open has to succeed, and to be made without a
  client, or to fail at `MQTTClient_create` already;
* `missing_client_law` : exactly when no function follows a missing handle.
  `mqtt_subscribe` and `mqtt_publish` do not test it, so they must not be called without
  a client; the other functions fail cleanly.
-/
import DataLogger.MqttWrapper

variable {Addr : Type} [DecidableEq Addr]

/-! ## Ownership -/

/-- A client is created at an address where none is live. -/
def CreatesFresh (s : MqttState Addr) : MqttEvent Addr → Prop
  | .call (.openConnection _ _) ch =>
      (ch 0).rc = mqttClientSuccess → (ch 0).client ∉ s.clients.live
  | _ => True

/-- After the step, if it returns, the handle denotes every live client; and an open that
returns -1 has left the set of live clients. -/
def KeepsOwnership (s : MqttState Addr) (e : MqttEvent Addr) : Prop :=
  ∀ s' r t, mqttMachine.step s e = .ok (s', r, t) →
    (∀ a ∈ s'.clients.live, s'.globals.client = some a) ∧
    ∀ address clientId ch, e = .call (.openConnection address clientId) ch → r = some (-1) →
      s'.clients.live = s.clients.live

/-- An open fails at `MQTTClient_create`, or it is made without a client and succeeds. -/
def OpensCleanly (s : MqttState Addr) : MqttEvent Addr → Prop
  | .call (.openConnection _ _) ch =>
      (ch 0).rc ≠ mqttClientSuccess ∨
        (s.globals.client = none ∧ (ch 1).rc = mqttClientSuccess ∧ (ch 2).rc = mqttClientSuccess)
  | _ => True

instance (s : MqttState Addr) : DecidablePred (CreatesFresh s)
  | .call (.openConnection _ _) ch => inferInstanceAs
      (Decidable ((ch 0).rc = mqttClientSuccess → (ch 0).client ∉ s.clients.live))
  | .call .disconnect _ | .call (.subscribe ..) _ | .call (.unsubcribe ..) _ | .call (.publish ..) _
  | .connectionLost _ => isTrue trivial

instance (s : MqttState Addr) : DecidablePred (OpensCleanly s)
  | .call (.openConnection _ _) ch =>
      inferInstanceAs (Decidable ((ch 0).rc ≠ mqttClientSuccess ∨
        (s.globals.client = none ∧ (ch 1).rc = mqttClientSuccess ∧ (ch 2).rc = mqttClientSuccess)))
  | .call .disconnect _ | .call (.subscribe ..) _ | .call (.unsubcribe ..) _ | .call (.publish ..) _
  | .connectionLost _ => isTrue trivial

/-- The live clients are exactly the one that the handle denotes, if it denotes one. -/
def OwnsClients (s : MqttState Addr) : Prop := ∀ a, a ∈ s.clients.live ↔ s.globals.client = some a

omit [DecidableEq Addr] in
theorem OwnsClients.validHandle {s : MqttState Addr} (ho : OwnsClients s) : ValidHandle s :=
  fun a ha => (ho a).mpr ha

omit [DecidableEq Addr] in
/-- At first no client is owned. -/
theorem ownsClients_initial : OwnsClients (initialMqtt : MqttState Addr) := by
  intro a
  constructor
  · intro ha
    cases ha
  · intro ha
    cases ha

variable {s s' : MqttState Addr} {e : MqttEvent Addr} {r : Option CInt} {t : CallTrace Addr}

/-- A clean step keeps ownership. -/
theorem ownsClients_step (ho : OwnsClients s) (hclean : OpensCleanly s e)
    (hstep : mqttMachine.step s e = .ok (s', r, t)) : OwnsClients s' := by
  intro b
  cases effect_of_step ho.validHandle hstep with
  | none client live =>
      rw [client, live]
      exact ho b
  | created rc client live =>
      -- a clean open that created a client was made without one, so nothing else is live
      obtain ⟨hnone, -⟩ := hclean.resolve_left (not_not_intro rc)
      have hempty : b ∉ s.clients.live := by
        rw [ho b, hnone]
        simp
      rw [client, live, Finset.mem_insert, or_iff_left hempty, Option.some.injEq]
      exact eq_comm
  | destroyed old client live =>
      rw [client, live, Finset.mem_erase, ho b, old, Option.some.injEq]
      constructor
      · rintro ⟨hne, heq⟩
        exact absurd heq.symm hne
      · intro h
        cases h

/-- **One step.**  From a state that owns its clients, a step keeps ownership exactly when
an open in it is clean. -/
theorem keepsOwnership_iff (ho : OwnsClients s) (hfresh : CreatesFresh s e) :
    KeepsOwnership s e ↔ OpensCleanly s e := by
  constructor
  · intro hkeeps
    rcases e with ⟨op, ch⟩ | client
    · cases op with
      | openConnection address clientId =>
          by_contra hnot
          have hnot' := not_or.mp hnot
          have hrc : (ch 0).rc = mqttClientSuccess := not_not.mp hnot'.1
          obtain ⟨opts, hret⟩ := open_created (c := s.clients) s.globals address clientId hrc
          obtain ⟨t, hstep⟩ := step_of_returns (.openConnection address clientId) hret
          obtain ⟨howned, hleft⟩ := hkeeps _ _ t hstep
          have hleft := hleft address clientId ch rfl
          dsimp only at howned hleft
          rcases hclient : s.globals.client with _ | a
          · -- the sequence failed after the client was created: -1, and the client stays
            have hfailed : ¬ ((ch 1).rc = mqttClientSuccess ∧ (ch 2).rc = mqttClientSuccess) :=
              fun h => hnot'.2 ⟨hclient, h⟩
            have hsame := hleft (if_neg hfailed)
            have hmem : (ch 0).client ∈ s.clients.live := hsame ▸ Finset.mem_insert_self _ _
            exact hfresh hrc hmem
          · -- the old client stays live, but the handle denotes the new one
            have ha : a ∈ s.clients.live := (ho a).mpr hclient
            have hnew := howned a (Finset.mem_insert_of_mem ha)
            rw [Option.some.injEq] at hnew
            exact hfresh hrc (hnew ▸ ha)
      | _ => trivial
    · trivial
  · intro hclean s' r t hstep
    have ho' := ownsClients_step ho hclean hstep
    refine ⟨fun a ha => (ho' a).mp ha, ?_⟩
    rintro address clientId ch rfl hr
    generalize hev : MqttEvent.call (.openConnection address clientId) ch = ev at hstep
    cases effect_of_step ho.validHandle hstep with
    | none _ live => exact live
    | created rc _ _ =>
        cases hev
        obtain ⟨-, hok⟩ := hclean.resolve_left (not_not_intro rc)
        rw [if_pos hok, Option.some.injEq] at hr
        exact absurd hr (by decide)
    | destroyed => cases hev

/-- **When the handle owns every client.**  Along a run from the start of the process, the
live clients stay in reach, and failed opens leave none behind, exactly when every open
of the run is clean. -/
theorem client_ownership_law (es : List (MqttEvent Addr))
    (hfresh : mqttMachine.Along CreatesFresh initialMqtt es) :
    mqttMachine.Along KeepsOwnership initialMqtt es ↔
      mqttMachine.Along OpensCleanly initialMqtt es := by
  refine Machine.along_iff_along hfresh ownsClients_initial ?_ ?_
  · intro s e ho hf
    exact keepsOwnership_iff ho hf
  · rintro s e s' ⟨r, t⟩ ho - hclean hstep
    exact ownsClients_step ho hclean hstep

/-! ## Runs that lose a client -/

/-- The library answers the `n`-th call with the code `codes n`; a new client is at `a`. -/
def answers (a : ℕ) (codes : List CInt) (n : ℕ) : Choice ℕ := ⟨codes.getD n 0, a, 7⟩

/-- Open, publish, lose the connection, disconnect, and fail to open again. -/
def cleanRun : List (MqttEvent ℕ) :=
  [.call (.openConnection [] []) (answers 1 [0, 0, 0]),
    .call (.publish [] [] 1 10000 3) (answers 0 [0, 0]),
    .connectionLost 1, .call .disconnect (answers 0 []),
    .call (.openConnection [] []) (answers 2 [-1])]

/-- A run in which every open is clean keeps the ownership. -/
theorem client_ownership_law_clean : mqttMachine.Along KeepsOwnership initialMqtt cleanRun :=
  (client_ownership_law cleanRun (by decide)).mpr (by decide)

/-- The broker refuses the first connection; the caller opens again. -/
def retriedOpen : List (MqttEvent ℕ) :=
  [.call (.openConnection [] []) (answers 1 [0, 0, -1]),
    .call (.openConnection [] []) (answers 2 [0, 0, 0])]

/-- The first open returns -1 but leaves its client live; after the second one two clients
are live, and the handle denotes the new one only. -/
theorem retried_open_leaks :
    mqttMachine.Along CreatesFresh initialMqtt retriedOpen ∧
      ¬ mqttMachine.Along KeepsOwnership initialMqtt retriedOpen ∧
      (mqttMachine.run initialMqtt retriedOpen).out.map Prod.fst = [some (-1), some 0] ∧
      (mqttMachine.run initialMqtt (retriedOpen.take 1)).state.clients.live = {1} ∧
      (mqttMachine.run initialMqtt retriedOpen).state.clients.live = {1, 2} ∧
      (mqttMachine.run initialMqtt retriedOpen).state.globals.client = some 2 := by
  refine ⟨by decide, ?_, by decide, by decide, by decide, by decide⟩
  intro hkeeps
  have hfirst := (keepsOwnership_iff ownsClients_initial (by decide)).mp hkeeps.1
  exact absurd hfirst (by decide)

/-! ## Missing clients -/

/-- The step follows no handle that is `NULL` or destroyed, and a call made without a
client (other than one that opens) returns -1 and changes nothing. -/
structure FailsCleanly (s : MqttState Addr) (e : MqttEvent Addr) : Prop where
  no_fault : ∀ f, mqttMachine.step s e ≠ .error (.fault f)
  unchanged : ∀ op ch, e = .call op ch →
    (∀ address clientId, op ≠ .openConnection address clientId) →
    s.globals.client = none → ∃ t, mqttMachine.step s e = .ok (s, some (-1), t)

/-- A call that follows the handle is made with a client. -/
def HasClient (s : MqttState Addr) (e : MqttEvent Addr) : Prop :=
  FollowsHandle e → s.globals.client ≠ none

instance (s : MqttState Addr) : DecidablePred (HasClient s) :=
  fun e => inferInstanceAs (Decidable (FollowsHandle e → s.globals.client ≠ none))

/-- **One step.**  With a valid handle, a step fails cleanly exactly when a call that
follows the handle finds a client. -/
theorem failsCleanly_iff (hv : ValidHandle s) : FailsCleanly s e ↔ HasClient s e := by
  constructor
  · intro hclean hfollows hnone
    rcases e with ⟨op, o⟩ | client
    · cases op with
      | subscribe topic qos =>
          have hstops := subscribe_null (o := o) (c := s.clients) s.globals hnone topic qos
          exact hclean.no_fault _ (step_of_stops (.subscribe topic qos) hstops)
      | publish topic payload qos timeout dt =>
          have hstops :=
            publish_null (o := o) (c := s.clients) s.globals hnone topic payload qos timeout dt
          exact hclean.no_fault _ (step_of_stops (.publish topic payload qos timeout dt) hstops)
      | openConnection | disconnect | unsubcribe => cases hfollows
    · cases hfollows
  · intro hhas
    constructor
    · intro f hf
      rcases step_cases hv e with ⟨s', r, t, hstep, -⟩ | hstep | ⟨-, hfollows, hnone⟩
      · rw [hstep] at hf
        cases hf
      · rw [hstep] at hf
        cases hf
      · exact hhas hfollows hnone
    · rintro op o rfl hop hnone
      cases op with
      | openConnection address clientId => exact absurd rfl (hop address clientId)
      | disconnect => exact step_of_returns .disconnect (disconnect_null s.globals hnone)
      | unsubcribe topic =>
          exact step_of_returns (.unsubcribe topic) (unsubcribe_null s.globals hnone topic)
      | subscribe | publish => exact absurd hnone (hhas trivial)

/-- **When no missing client is followed.**  Along a run from the start of the process,
every call without a client fails cleanly exactly when none of them is a call of
`mqtt_subscribe` or `mqtt_publish`. -/
theorem missing_client_law (es : List (MqttEvent Addr)) :
    mqttMachine.Along FailsCleanly initialMqtt es ↔ mqttMachine.Along HasClient initialMqtt es := by
  have hany : mqttMachine.Along (fun _ _ => True) (initialMqtt : MqttState Addr) es :=
    Machine.along_of_forall fun _ _ => trivial
  refine Machine.along_iff_along hany validHandle_initial ?_ ?_
  · intro s e hv _
    exact failsCleanly_iff hv
  · rintro s e s' ⟨r, t⟩ hv - - hstep
    exact validHandle_step hv hstep

/-- The caller does not look at the result of the open, and publishes. -/
def publishAfterFailedOpen : List (MqttEvent ℕ) :=
  [.call (.openConnection [] []) (answers 1 [-1]),
    .call (.publish [] [] 1 10000 3) (answers 0 [0, 0])]

/-- The open fails and leaves the handle `NULL`, and the publish follows it. -/
theorem publish_after_failed_open :
    (mqttMachine.run initialMqtt publishAfterFailedOpen).out.map Prod.fst = [some (-1)] ∧
      (mqttMachine.run initialMqtt publishAfterFailedOpen).stop = some (.fault .null) ∧
      ¬ mqttMachine.Along FailsCleanly initialMqtt publishAfterFailedOpen := by
  have hstop : (mqttMachine.run initialMqtt publishAfterFailedOpen).stop = some (.fault .null) := by
    decide
  refine ⟨by decide, hstop, fun hclean => ?_⟩
  have hnot := Machine.stop_of_along (A := fun stop => ∀ f, stop ≠ .fault f) hclean ?_ hstop
  · exact hnot .null rfl
  · rintro s e stop h hstep f rfl
    exact h.no_fault f hstep
