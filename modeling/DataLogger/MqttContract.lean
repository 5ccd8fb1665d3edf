/-
# What the results of the MQTT wrapper tell

The wrapper functions return 0 when every library call in them succeeded, and -1 when one
failed.  `result_contract_law` says which of them keep to that, with any return codes of
the library: all but `mqtt_publish`, which ends the process when the message is not
accepted, and otherwise returns no value at all, whether or not the delivery was
confirmed.
-/
import DataLogger.MqttOwnership

variable {Addr : Type}

/-! ## The contract -/

/-- The result is 0 if every call with a return code succeeded, and -1 otherwise. -/
def Tells (r : Option CInt) (t : CallTrace Addr) : Prop :=
  (AllSucceeded t ∧ r = some 0) ∨ (¬ AllSucceeded t ∧ r = some (-1))

/-- A function that made the calls `t` and ended with `out` kept the contract: it returned,
and its result tells how the calls went. -/
def MeetsContract (t : CallTrace Addr) (out : Except CInt (Returned Addr)) : Prop :=
  ∃ g r, out = .ok (g, r) ∧ Tells r t

/-- Code keeps the contract with any replies of the library. -/
def KeepsContract (p : ClientCode Addr (Returned Addr)) : Prop :=
  ∀ t out, p.Runs t out → MeetsContract t out

/-! ## Rules

One for each way in which the functions are put together. -/

/-- A call that succeeded, or has no return code, does not change what has to be told. -/
theorem MeetsContract.cons {t : CallTrace Addr} {out : Except CInt (Returned Addr)}
    (h : MeetsContract t out) {c : LibCall Addr} {r : c.Reply}
    (hok : ∀ rc, c.status r = some rc → rc = mqttClientSuccess) :
    MeetsContract (⟨c, r⟩ :: t) out := by
  have hsame : AllSucceeded (⟨c, r⟩ :: t) ↔ AllSucceeded t := by
    rw [allSucceeded_cons]
    exact and_iff_right hok
  obtain ⟨g, res, hout, htells⟩ := h
  refine ⟨g, res, hout, ?_⟩
  unfold Tells
  rw [hsame]
  exact htells

/-- `return 0` at the end. -/
theorem keepsContract_ret (g : Globals Addr) : KeepsContract (.ret (g, some 0)) := by
  rintro t out ⟨rfl, rfl⟩
  exact ⟨g, some 0, rfl, Or.inl ⟨allSucceeded_nil, rfl⟩⟩

/-- `if ((rc = f(...)) != MQTTCLIENT_SUCCESS) return -1`, and then the rest. -/
theorem keepsContract_checked {c : LibCall Addr} {code : c.Reply → CInt}
    {g : c.Reply → Globals Addr}
    {k : c.Reply → ClientCode Addr (Returned Addr)} (hcode : ∀ r, c.status r = some (code r))
    (hk : ∀ r, KeepsContract (k r)) :
    KeepsContract (.call c fun r => if code r ≠ mqttClientSuccess then .ret (g r, some (-1))
      else k r) := by
  rintro t out ⟨r, rest, rfl, h⟩
  dsimp only at h
  by_cases hrc : code r = mqttClientSuccess
  · rw [if_neg (not_not_intro hrc)] at h
    apply (hk r rest out h).cons
    intro rc hstatus
    rw [hcode r, Option.some.injEq] at hstatus
    rw [← hstatus, hrc]
  · rw [if_pos hrc] at h
    obtain ⟨rfl, rfl⟩ := h
    refine ⟨g r, some (-1), rfl, Or.inr ⟨fun hall => hrc ?_, rfl⟩⟩
    exact hall _ List.mem_cons_self (code r) (hcode r)

/-- A call of a `void` function, and then the rest. -/
theorem keepsContract_void {c : LibCall Addr} {k : c.Reply → ClientCode Addr (Returned Addr)}
    (hvoid : ∀ r, c.status r = none) (hk : ∀ r, KeepsContract (k r)) :
    KeepsContract (.call c k) := by
  rintro t out ⟨r, rest, rfl, h⟩
  apply (hk r rest out h).cons
  intro rc hstatus
  rw [hvoid r] at hstatus
  cases hstatus

/-- The operation is a call of `mqtt_publish`. -/
def WrapperOp.IsPublish : WrapperOp → Prop
  | .publish .. => True
  | .openConnection .. | .disconnect | .subscribe .. | .unsubcribe .. => False

instance : DecidablePred WrapperOp.IsPublish
  | .publish .. => isTrue trivial
  | .openConnection .. | .disconnect | .subscribe .. | .unsubcribe .. => isFalse id

/-! ## The functions one by one -/

section Functions

variable (g : Globals Addr)

/-- `mqtt_open_connection` checks every call. -/
theorem open_keepsContract (address clientId : CString) :
    KeepsContract (mqttOpenConnection address clientId g) := by
  rw [mqttOpenConnection_eq]
  apply keepsContract_checked fun _ => rfl
  intro r
  apply keepsContract_checked fun _ => rfl
  intro _
  apply keepsContract_checked fun _ => rfl
  intro _
  apply keepsContract_ret

/-- `mqtt_disconnect` checks both calls. -/
theorem disconnect_keepsContract : KeepsContract (mqttDisconnect g) := by
  rw [mqttDisconnect_eq]
  apply keepsContract_checked fun _ => rfl
  intro _
  apply keepsContract_void (fun _ => rfl)
  intro _
  apply keepsContract_ret

/-- `mqtt_subscribe` checks its call. -/
theorem subscribe_keepsContract (topic : CString) (qos : CInt) :
    KeepsContract (mqttSubscribe topic qos g) := by
  rw [mqttSubscribe_eq]
  apply keepsContract_checked fun _ => rfl
  intro _
  apply keepsContract_ret

/-- `mqtt_unsubcribe` checks its call. -/
theorem unsubcribe_keepsContract (topic : CString) : KeepsContract (mqttUnsubcribe topic g) := by
  rw [mqttUnsubcribe_eq]
  apply keepsContract_checked fun _ => rfl
  intro _
  apply keepsContract_ret

/-- `mqtt_publish` keeps the contract with no replies at all. -/
theorem publish_not_meetsContract {topic payload : CString} {qos timeout dt : CInt}
    {t : CallTrace Addr} {out : Except CInt (Returned Addr)}
    (h : (mqttPublish topic payload qos timeout dt g).Runs t out) : ¬ MeetsContract t out := by
  rintro ⟨g', r, rfl, htells⟩
  rw [mqttPublish_eq] at h
  obtain ⟨⟨rc, dt'⟩, t, rfl, h⟩ := h
  dsimp only at h
  by_cases hrc : rc = mqttClientSuccess
  · -- the message was accepted: the function returns, but without a value
    rw [if_neg (not_not_intro hrc)] at h
    obtain ⟨rc', t, rfl, rfl, hret⟩ := h
    cases hret
    rcases htells with ⟨-, hr⟩ | ⟨-, hr⟩ <;> cases hr
  · -- it was not: the process ends
    rw [if_pos hrc] at h
    cases h.2

/-- All operations but `mqtt_publish` keep the contract. -/
theorem keepsContract_of_not_isPublish {op : WrapperOp} (hop : ¬ op.IsPublish) :
    KeepsContract (op.program g) := by
  cases op with
  | openConnection address clientId => exact open_keepsContract g address clientId
  | disconnect => exact disconnect_keepsContract g
  | subscribe topic qos => exact subscribe_keepsContract g topic qos
  | unsubcribe topic => exact unsubcribe_keepsContract g topic
  | publish => exact absurd trivial hop

/-- `mqtt_publish` has no result that meets it. -/
theorem not_meetsContract_of_isPublish {op : WrapperOp} (hop : op.IsPublish) {t : CallTrace Addr}
    {out : Except CInt (Returned Addr)} (h : (op.program g).Runs t out) :
    ¬ MeetsContract t out := by
  cases op with
  | publish => exact publish_not_meetsContract g h
  | openConnection | disconnect | subscribe | unsubcribe => cases hop

end Functions

variable [DecidableEq Addr]

/-! ## Runs -/

instance (c : LibCall Addr) : Nonempty c.Reply := by
  cases c
  all_goals exact ⟨default⟩

/-- A call made while the client is live returns, with a result that tells how the calls
of the library went. -/
def ReportsResult (s : MqttState Addr) (e : MqttEvent Addr) : Prop :=
  ∀ op o, e = .call op o → ClientLive s →
    ∃ s' r t, mqttMachine.step s e = .ok (s', r, t) ∧ Tells r t

/-- The event is no call of `mqtt_publish` on a live client. -/
def PublishesNothing (s : MqttState Addr) (e : MqttEvent Addr) : Prop :=
  ∀ op o, e = .call op o → ClientLive s → ¬ op.IsPublish

omit [DecidableEq Addr] in
theorem ClientLive.validHandle {s : MqttState Addr} (hlive : ClientLive s) : ValidHandle s := by
  obtain ⟨a, hclient, ha⟩ := hlive
  intro b hb
  rw [hclient, Option.some.injEq] at hb
  exact hb ▸ ha

/-- **One step.** -/
theorem reportsResult_iff {s : MqttState Addr} {e : MqttEvent Addr} :
    ReportsResult s e ↔ PublishesNothing s e := by
  constructor
  · rintro hreports op o rfl hlive hop
    obtain ⟨s', r, t, hstep, htells⟩ := hreports op o rfl hlive
    have hruns := Program.runs_of_exec (exec_of_step hstep)
    exact not_meetsContract_of_isPublish _ hop hruns ⟨_, _, rfl, htells⟩
  · rintro hnot op o rfl hlive
    have hop := hnot op o rfl hlive
    rcases step_cases hlive.validHandle (.call op o) with ⟨s', r, t, hstep, -⟩ |
      hexit | ⟨-, -, hnone⟩
    · refine ⟨s', r, t, hstep, ?_⟩
      have hruns := Program.runs_of_exec (exec_of_step hstep)
      obtain ⟨g, r', hout, htells⟩ := keepsContract_of_not_isPublish _ hop _ _ hruns
      cases hout
      exact htells
    · -- only `mqtt_publish` ends the process
      obtain ⟨t, hruns⟩ := Program.runs_of_exec_exited (stops_of_step hexit)
      obtain ⟨g, r, hout, -⟩ := keepsContract_of_not_isPublish _ hop _ _ hruns
      cases hout
    · obtain ⟨a, hclient, -⟩ := hlive
      rw [hnone] at hclient
      cases hclient

/-- **When the results tell.**  With any replies of the library, the four other functions
keep the contract and `mqtt_publish` never does; so, from any state, the calls of a run on
a live client all report how they went exactly when none of them is a publish. -/
theorem result_contract_law :
    (∀ (op : WrapperOp) (g : Globals Addr), KeepsContract (op.program g) ↔ ¬ op.IsPublish) ∧
    (∀ (op : WrapperOp) (g : Globals Addr), op.IsPublish →
      ∀ t out, (op.program g).Runs t out → ¬ MeetsContract t out) ∧
    ∀ (s : MqttState Addr) (es : List (MqttEvent Addr)),
      mqttMachine.Along ReportsResult s es ↔ mqttMachine.Along PublishesNothing s es := by
  refine ⟨fun op g => ⟨?_, keepsContract_of_not_isPublish g⟩, ?_, fun s es => ?_⟩
  · intro hkeeps hop
    obtain ⟨t, out, h⟩ := Program.exists_runs (op.program g)
    exact not_meetsContract_of_isPublish g hop h (hkeeps t out h)
  · intro op g hop t out h
    exact not_meetsContract_of_isPublish g hop h
  · exact Machine.along_congr fun s e => reportsResult_iff

/-- Open, and publish one message; `codes` are the codes of the library in the publish. -/
def publishOnce (codes : List CInt) : List (MqttEvent ℕ) :=
  [.call (.openConnection [] []) (answers 1 [0, 0, 0]),
    .call (.publish [] [] 1 10000 3) (answers 0 codes)]

/-- A publish whose delivery was confirmed and one that timed out return alike, without a
value; and one that was not accepted ends the process. -/
theorem publish_reports_nothing :
    (mqttMachine.run initialMqtt (publishOnce [0, 0])).out.map Prod.fst = [some 0, none] ∧
      (mqttMachine.run initialMqtt (publishOnce [0, -1])).out.map Prod.fst = [some 0, none] ∧
      (mqttMachine.run initialMqtt (publishOnce [mqttClientDisconnected])).stop =
        some (.exited exitFailure) ∧
      ∀ codes, ¬ mqttMachine.Along ReportsResult initialMqtt (publishOnce codes) := by
  refine ⟨by decide, by decide, by decide, fun codes h => ?_⟩
  have hpublish := (h.2 _ _ rfl).1
  have hlive : ClientLive (⟨⟨some 1, ⟨20, 1⟩⟩, ⟨{1}⟩⟩ : MqttState ℕ) := ⟨1, rfl, by decide⟩
  exact reportsResult_iff.mp hpublish _ _ rfl hlive trivial
