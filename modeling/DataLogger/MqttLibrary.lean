/-
# The MQTT client library, as its wrapper sees it

The functions of `MQTTClient.h` that the wrapper calls, and a model of what they do with
client handles.  Its state is the set of live clients, those created and not destroyed.

What the results assume of the library:

* `MQTTClient_create` stores the handle of a new client, or fails and stores nothing.  The
  library here does so but for one failure: `MQTTClient_createWithOptions` stores the handle
  before it allocates the second part of the client, and if there is no memory for that, it
  fails with the handle of a client that is not listed.

What the model takes from the library (`MQTTClient.c`):

* `MQTTClient_connect`, `MQTTClient_subscribe` and `MQTTClient_publishMessage` follow
  the handle (`m->c->MQTTVersion`) before anything tests it, the other functions answer
  `MQTTCLIENT_FAILURE` to a `NULL` handle;
* `MQTTClient_disconnect` succeeds on every other handle, and `MQTTClient_destroy`
  releases the client and sets the handle to `NULL`.

Every other return code is a free choice of the library.  A connection may be lost at any
moment: the library notes it in the client's own record, where nothing but the codes of
later calls depends on it, so that every such loss is among the free choices.
-/
import DataLogger.CTypes
import DataLogger.Library.Program
import DataLogger.Library.Heap
import Mathlib.Data.Finset.Basic

/-! ## Data types (`MQTTClient.h`) -/

/-- `MQTTCLIENT_SUCCESS`. -/
def mqttClientSuccess : CInt := 0

/-- `MQTTCLIENT_FAILURE`. -/
def mqttClientFailure : CInt := -1

/-- `MQTTCLIENT_DISCONNECTED`. -/
def mqttClientDisconnected : CInt := -3

/-- `MQTTCLIENT_PERSISTENCE_NONE`. -/
def mqttClientPersistenceNone : CInt := 1

/-- The fields of `MQTTClient_connectOptions` that the wrapper sets. -/
structure ConnectOptions where
  keepAliveInterval : CInt
  cleansession : CInt
  deriving DecidableEq, Repr

/-- `MQTTClient_connectOptions_initializer`. -/
def connectOptionsInitializer : ConnectOptions := ⟨60, 1⟩

/-- The fields of `MQTTClient_message` that the wrapper sets. -/
structure Message where
  payloadlen : CInt
  payload : CString
  qos : CInt
  retained : CInt
  deriving DecidableEq, Repr

/-- `MQTTClient_message_initializer`. -/
def messageInitializer : Message := ⟨0, [], 0, 0⟩

/-! ## Calls and replies -/

section Calls

variable {Addr : Type}

/-- A call of a library function with its arguments.  The callbacks and the contexts,
which are the same in every call, are left out. -/
inductive LibCall (Addr : Type)
  | create (handle : Ptr Addr) (serverURI clientId : CString) (persistenceType : CInt)
  | setCallbacks (handle : Ptr Addr)
  | connect (handle : Ptr Addr) (options : ConnectOptions)
  | disconnect (handle : Ptr Addr) (timeout : CInt)
  | destroy (handle : Ptr Addr)
  | subscribe (handle : Ptr Addr) (topic : CString) (qos : CInt)
  | unsubscribe (handle : Ptr Addr) (topic : CString)
  | publishMessage (handle : Ptr Addr) (topicName : CString) (msg : Message) (dt : CInt)
  | waitForCompletion (handle : Ptr Addr) (dt : CInt) (timeout : CULong)
  deriving DecidableEq

/-- What the caller finds after a call: the return code, and the variables that it
passed by address (the handle of `create` and `destroy`, the token of
`publishMessage`). -/
@[reducible]
def LibCall.Reply : LibCall Addr → Type
  | .create .. => CInt × Ptr Addr
  | .destroy .. => Ptr Addr
  | .publishMessage .. => CInt × CInt
  | _ => CInt

/-- The return code of a call; `MQTTClient_destroy` has none. -/
def LibCall.status : (c : LibCall Addr) → c.Reply → Option CInt
  | .create .., r => some r.1
  | .destroy .., _ => none
  | .publishMessage .., r => some r.1
  | .setCallbacks .., r | .connect .., r | .disconnect .., r | .subscribe .., r
  | .unsubscribe .., r | .waitForCompletion .., r => some r

/-- Code that calls the library and may end the process. -/
abbrev ClientCode (Addr α : Type) := Program (LibCall Addr) LibCall.Reply CInt α

namespace MQTTClient

/-- The call `MQTTClient_create(&handle, serverURI, clientId, persistenceType, NULL)`. -/
def create (handle : Ptr Addr) (serverURI clientId : CString) (persistenceType : CInt) :
    ClientCode Addr (CInt × Ptr Addr) :=
  Program.lib (LibCall.create handle serverURI clientId persistenceType)

/-- The call `MQTTClient_setCallbacks(handle, NULL, ...)`. -/
def setCallbacks (handle : Ptr Addr) : ClientCode Addr CInt :=
  Program.lib (LibCall.setCallbacks handle)

/-- The call `MQTTClient_connect(handle, &options)`. -/
def connect (handle : Ptr Addr) (options : ConnectOptions) : ClientCode Addr CInt :=
  Program.lib (LibCall.connect handle options)

/-- The call `MQTTClient_disconnect(handle, timeout)`. -/
def disconnect (handle : Ptr Addr) (timeout : CInt) : ClientCode Addr CInt :=
  Program.lib (LibCall.disconnect handle timeout)

/-- The call `MQTTClient_destroy(&handle)`. -/
def destroy (handle : Ptr Addr) : ClientCode Addr (Ptr Addr) :=
  Program.lib (LibCall.destroy handle)

/-- The call `MQTTClient_subscribe(handle, topic, qos)`. -/
def subscribe (handle : Ptr Addr) (topic : CString) (qos : CInt) : ClientCode Addr CInt :=
  Program.lib (LibCall.subscribe handle topic qos)

/-- The call `MQTTClient_unsubscribe(handle, topic)`. -/
def unsubscribe (handle : Ptr Addr) (topic : CString) : ClientCode Addr CInt :=
  Program.lib (LibCall.unsubscribe handle topic)

/-- The call `MQTTClient_publishMessage(handle, topicName, &msg, &dt)`. -/
def publishMessage (handle : Ptr Addr) (topicName : CString) (msg : Message) (dt : CInt) :
    ClientCode Addr (CInt × CInt) :=
  Program.lib (LibCall.publishMessage handle topicName msg dt)

/-- The call `MQTTClient_waitForCompletion(handle, dt, timeout)`. -/
def waitForCompletion (handle : Ptr Addr) (dt : CInt) (timeout : CULong) : ClientCode Addr CInt :=
  Program.lib (LibCall.waitForCompletion handle dt timeout)

end MQTTClient

/-- The calls that were made with their replies. -/
abbrev CallTrace (Addr : Type) := Program.Trace (LibCall Addr) LibCall.Reply

/-- Every call that has a return code returned `MQTTCLIENT_SUCCESS`. -/
def AllSucceeded (t : CallTrace Addr) : Prop :=
  ∀ x ∈ t, ∀ rc, x.1.status x.2 = some rc → rc = mqttClientSuccess

@[simp] theorem allSucceeded_nil : AllSucceeded ([] : CallTrace Addr) := by
  intro x hx
  cases hx

/-- All calls succeeded if the first did and the others. -/
@[simp] theorem allSucceeded_cons (x : Σ c : LibCall Addr, c.Reply) (t : CallTrace Addr) :
    AllSucceeded (x :: t) ↔
      (∀ rc, x.1.status x.2 = some rc → rc = mqttClientSuccess) ∧ AllSucceeded t :=
  List.forall_mem_cons

end Calls

/-! ## The model -/

section Model

variable {Addr : Type} [DecidableEq Addr]

/-- The clients that are live. -/
structure ClientState (Addr : Type) where
  live : Finset Addr
  deriving DecidableEq

/-- The free choices of the library in one call: its return code, the address of a new
client and the token of a new message. -/
structure Choice (Addr : Type) where
  rc : CInt
  client : Addr
  token : CInt

namespace ClientState

/-- Follow a handle. -/
def deref (s : ClientState Addr) : Ptr Addr → Except (Heap.Fault Addr) Addr
  | none => .error .null
  | some a => if a ∈ s.live then .ok a else .error (.unallocated a)

/-- What follows a live handle goes on. -/
theorem map_deref {s : ClientState Addr} {a : Addr} (ha : a ∈ s.live) {β : Type} (f : Addr → β) :
    (s.deref (some a)).map f = .ok (f a) := by
  have hderef : s.deref (some a) = .ok a := if_pos ha
  rw [hderef]
  rfl

/-- `MQTTClient_create`, as it is assumed to be: it fails and stores nothing, or it stores the
handle of a new client.  `MQTTClient_createWithOptions` has stored the handle already when its
second `malloc` fails. -/
def create (s : ClientState Addr) (ch : Choice Addr) (handle : Ptr Addr) :
    ClientState Addr × CInt × Ptr Addr :=
  if ch.rc = mqttClientSuccess then (⟨insert ch.client s.live⟩, ch.rc, some ch.client)
  else (s, ch.rc, handle)

/-- `MQTTClient_setCallbacks`. -/
def setCallbacks (s : ClientState Addr) (ch : Choice Addr) :
    Ptr Addr → Except (Heap.Fault Addr) (ClientState Addr × CInt)
  | none => .ok (s, mqttClientFailure)
  | some a => (s.deref (some a)).map fun _ => (s, ch.rc)

/-- `MQTTClient_connect`. -/
def connect (s : ClientState Addr) (ch : Choice Addr) (handle : Ptr Addr) :
    Except (Heap.Fault Addr) (ClientState Addr × CInt) :=
  (s.deref handle).map fun _ => (s, ch.rc)

/-- `MQTTClient_disconnect`. -/
def disconnect (s : ClientState Addr) :
    Ptr Addr → Except (Heap.Fault Addr) (ClientState Addr × CInt)
  | none => .ok (s, mqttClientFailure)
  | some a => (s.deref (some a)).map fun _ => (s, mqttClientSuccess)

/-- `MQTTClient_destroy`. -/
def destroy (s : ClientState Addr) :
    Ptr Addr → Except (Heap.Fault Addr) (ClientState Addr × Ptr Addr)
  | none => .ok (s, none)
  | some a => (s.deref (some a)).map fun a => (⟨s.live.erase a⟩, none)

/-- `MQTTClient_subscribe`. -/
def subscribe (s : ClientState Addr) (ch : Choice Addr) (handle : Ptr Addr) :
    Except (Heap.Fault Addr) (ClientState Addr × CInt) :=
  (s.deref handle).map fun _ => (s, ch.rc)

/-- `MQTTClient_unsubscribe`. -/
def unsubscribe (s : ClientState Addr) (ch : Choice Addr) :
    Ptr Addr → Except (Heap.Fault Addr) (ClientState Addr × CInt)
  | none => .ok (s, mqttClientFailure)
  | some a => (s.deref (some a)).map fun _ => (s, ch.rc)

/-- `MQTTClient_publishMessage`.  The token is written for `qos > 0` only. -/
def publishMessage (s : ClientState Addr) (ch : Choice Addr) (handle : Ptr Addr) (msg : Message)
    (dt : CInt) : Except (Heap.Fault Addr) (ClientState Addr × CInt × CInt) :=
  (s.deref handle).map fun _ => (s, ch.rc, if 0 < msg.qos.toInt then ch.token else dt)

/-- `MQTTClient_waitForCompletion`. -/
def waitForCompletion (s : ClientState Addr) (ch : Choice Addr) :
    Ptr Addr → Except (Heap.Fault Addr) (ClientState Addr × CInt)
  | none => .ok (s, mqttClientFailure)
  | some a => (s.deref (some a)).map fun _ => (s, ch.rc)

end ClientState

/-- The library's answers. -/
def clientLibrary :
    Program.Service (LibCall Addr) LibCall.Reply (ClientState Addr) (Choice Addr)
      (Heap.Fault Addr) where
  answer c ch s :=
    match c with
    | .create handle _ _ _ => .ok (s.create ch handle)
    | .setCallbacks handle => s.setCallbacks ch handle
    | .connect handle _ => s.connect ch handle
    | .disconnect handle _ => s.disconnect handle
    | .destroy handle => s.destroy handle
    | .subscribe handle _ _ => s.subscribe ch handle
    | .unsubscribe handle _ => s.unsubscribe ch handle
    | .publishMessage handle _ msg dt => s.publishMessage ch handle msg dt
    | .waitForCompletion handle _ _ => s.waitForCompletion ch handle

/-! ## What a call does

One equation per function and per kind of handle; nothing below unfolds the model. -/

section Answers

variable {s : ClientState Addr} {o : Choice Addr} {a : Addr}

/-- A `MQTTClient_create` that succeeds stores a live client. -/
theorem answer_create (handle : Ptr Addr) (uri clientId : CString) (ptype : CInt)
    (hrc : o.rc = mqttClientSuccess) :
    clientLibrary.answer (.create handle uri clientId ptype) o s =
      .ok (⟨insert o.client s.live⟩, (o.rc, some o.client)) := by
  show Except.ok (s.create o handle) = _
  exact congrArg Except.ok (if_pos hrc)

/-- A `MQTTClient_create` that fails stores nothing, as it is assumed. -/
theorem answer_create_failed (handle : Ptr Addr) (uri clientId : CString) (ptype : CInt)
    (hrc : o.rc ≠ mqttClientSuccess) :
    clientLibrary.answer (.create handle uri clientId ptype) o s = .ok (s, (o.rc, handle)) := by
  show Except.ok (s.create o handle) = _
  exact congrArg Except.ok (if_neg hrc)

/-- `MQTTClient_setCallbacks` of a live client answers. -/
theorem answer_setCallbacks (ha : a ∈ s.live) :
    clientLibrary.answer (.setCallbacks (some a)) o s = .ok (s, o.rc) :=
  ClientState.map_deref ha _

/-- `MQTTClient_connect` of a live client answers. -/
theorem answer_connect (ha : a ∈ s.live) (options : ConnectOptions) :
    clientLibrary.answer (.connect (some a) options) o s = .ok (s, o.rc) :=
  ClientState.map_deref ha _

/-- `MQTTClient_disconnect` checks the handle. -/
theorem answer_disconnect_null (timeout : CInt) :
    clientLibrary.answer (.disconnect none timeout) o s = .ok (s, mqttClientFailure) := rfl

/-- `MQTTClient_disconnect` of a live client succeeds. -/
theorem answer_disconnect (ha : a ∈ s.live) (timeout : CInt) :
    clientLibrary.answer (.disconnect (some a) timeout) o s = .ok (s, mqttClientSuccess) :=
  ClientState.map_deref ha _

/-- `MQTTClient_destroy` ends the life of the client, and clears the handle. -/
theorem answer_destroy (ha : a ∈ s.live) :
    clientLibrary.answer (.destroy (some a)) o s = .ok (⟨s.live.erase a⟩, none) :=
  ClientState.map_deref ha _

/-- `MQTTClient_subscribe` follows a `NULL` handle. -/
theorem answer_subscribe_null (topic : CString) (qos : CInt) :
    clientLibrary.answer (.subscribe none topic qos) o s = .error .null := rfl

/-- `MQTTClient_subscribe` of a live client answers. -/
theorem answer_subscribe (ha : a ∈ s.live) (topic : CString) (qos : CInt) :
    clientLibrary.answer (.subscribe (some a) topic qos) o s = .ok (s, o.rc) :=
  ClientState.map_deref ha _

/-- `MQTTClient_unsubscribe` checks the handle. -/
theorem answer_unsubscribe_null (topic : CString) :
    clientLibrary.answer (.unsubscribe none topic) o s = .ok (s, mqttClientFailure) := rfl

/-- `MQTTClient_unsubscribe` of a live client answers. -/
theorem answer_unsubscribe (ha : a ∈ s.live) (topic : CString) :
    clientLibrary.answer (.unsubscribe (some a) topic) o s = .ok (s, o.rc) :=
  ClientState.map_deref ha _

/-- `MQTTClient_publishMessage` follows a `NULL` handle. -/
theorem answer_publishMessage_null (topic : CString) (msg : Message) (dt : CInt) :
    clientLibrary.answer (.publishMessage none topic msg dt) o s = .error .null := rfl

/-- `MQTTClient_publishMessage` of a live client answers; its token is written for `qos > 0` only.
-/
theorem answer_publishMessage (ha : a ∈ s.live) (topic : CString) (msg : Message) (dt : CInt) :
    clientLibrary.answer (.publishMessage (some a) topic msg dt) o s =
      .ok (s, (o.rc, if 0 < msg.qos.toInt then o.token else dt)) :=
  ClientState.map_deref ha _

/-- `MQTTClient_waitForCompletion` of a live client answers. -/
theorem answer_waitForCompletion (ha : a ∈ s.live) (dt : CInt) (timeout : CULong) :
    clientLibrary.answer (.waitForCompletion (some a) dt timeout) o s = .ok (s, o.rc) :=
  ClientState.map_deref ha _

end Answers

end Model
