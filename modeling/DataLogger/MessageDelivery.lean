/-
# Delivery of arrived messages (`MQTTClient_run`, `message_arrived`)

The background thread of the client library delivers the messages that arrived.  It
takes the first entry of the message queue without unlinking it, drops the mutex and
runs `message_arrived`, which prints the message and frees it; then it takes the mutex
again and unlinks the entry.  On another thread `mqtt_disconnect` closes the session,
and with `cleansession` set that frees every message still on the queue.

The two threads are interleaved by the step: what runs under the mutex is one step, and
the callback, which runs without it, is three.  Memory that is read or freed after it
was freed is a fault.
-/
import DataLogger.CTypes
import DataLogger.MqttWrapper

/-! ## State -/

section Model

variable {Addr : Type}

/-- A block that belongs to a message: a text (the topic or the payload), or the
`MQTTClient_message` with its pointer to the payload. -/
inductive Block (Addr : Type)
  | text
  | message (payload : Ptr Addr)
  deriving DecidableEq, Repr

/-- The `payload` of a message structure. -/
def Block.payload : Block Addr → Ptr Addr
  | .text => none
  | .message payload => payload

/-- `qEntry`: what the queue holds of a message. -/
structure QEntry (Addr : Type) where
  topicName : Ptr Addr
  msg : Ptr Addr
  deriving DecidableEq, Repr

/-- Where the background thread is in the delivery of an entry. -/
inductive Phase (Addr : Type)
  /-- It delivers nothing. -/
  | idle
  /-- It called `message_arrived` without the mutex. -/
  | called (qe : QEntry Addr)
  /-- The message was printed. -/
  | printed (qe : QEntry Addr)
  /-- `MQTTClient_freeMessage` returned. -/
  | messageFreed (qe : QEntry Addr)
  /-- `MQTTClient_free` returned, and the callback with it. -/
  | topicFreed (qe : QEntry Addr)
  deriving DecidableEq, Repr

/-- The memory of the messages, the queue of the client, and the background thread. -/
structure Delivery (Addr : Type) where
  heap : Heap Addr (Block Addr)
  messageQueue : List (QEntry Addr)
  phase : Phase Addr
  cleansession : CInt

/-- The three blocks of a message that arrives. -/
structure Arrived (Addr : Type) where
  topic : Addr
  msg : Addr
  payload : Addr
  deriving DecidableEq, Repr

/-- The entry for an arrived message. -/
def Arrived.entry (x : Arrived Addr) : QEntry Addr := ⟨some x.topic, some x.msg⟩

/-- The blocks of an arrived message. -/
def Arrived.blocks (x : Arrived Addr) : List Addr := [x.topic, x.msg, x.payload]

/-! ## Steps -/

variable [DecidableEq Addr]

/-- `Protocol_processPublication`: the blocks are allocated, and the entry is appended to
the queue. -/
def processPublication (x : Arrived Addr) (d : Delivery Addr) : Delivery Addr :=
  let (_, h) := d.heap.malloc (some (x.topic, .text))
  let (_, h) := h.malloc (some (x.payload, .text))
  let (_, h) := h.malloc (some (x.msg, .message (some x.payload)))
  { d with heap := h, messageQueue := d.messageQueue ++ [x.entry] }

/-- `MQTTClient_freeMessage`: it reads the properties and the payload pointer of the
message, and frees the payload and the message. -/
def freeMessage (h : Heap Addr (Block Addr)) (msg : Ptr Addr) :
    Except (Heap.Fault Addr) (Heap Addr (Block Addr)) := do
  let m ← h.read msg
  let h ← h.free m.payload
  h.free msg

/-- The printing part of `message_arrived`: it reads the topic, the message and the
payload. -/
def printMessage (h : Heap Addr (Block Addr)) (qe : QEntry Addr) :
    Except (Heap.Fault Addr) Unit := do
  let _ ← h.read qe.topicName
  let m ← h.read qe.msg
  let _ ← h.read m.payload
  return ()

/-- The next step of the background thread (`MQTTClient_run` and `message_arrived`). -/
def backgroundStep (d : Delivery Addr) : Except (Heap.Fault Addr) (Delivery Addr) :=
  match d.phase with
  | .idle =>
      match d.messageQueue with
      | [] => .ok d
      | qe :: _ => do
          -- `strlen(qe->topicName)`; the entry stays on the queue
          let _ ← d.heap.read qe.topicName
          return { d with phase := .called qe }
  | .called qe => do
      printMessage d.heap qe
      return { d with phase := .printed qe }
  | .printed qe => do
      let h ← freeMessage d.heap qe.msg
      return { d with heap := h, phase := .messageFreed qe }
  | .messageFreed qe => do
      let h ← d.heap.free qe.topicName
      return { d with heap := h, phase := .topicFreed qe }
  | .topicFreed qe =>
      -- `ListRemove` compares pointers only, and does nothing if the entry is gone
      .ok { d with messageQueue := d.messageQueue.erase qe, phase := .idle }

/-- `MQTTClient_emptyMessageQueue`. -/
def emptyMessageQueue (h : Heap Addr (Block Addr)) :
    List (QEntry Addr) → Except (Heap.Fault Addr) (Heap Addr (Block Addr))
  | [] => .ok h
  | qe :: queue => do
      let h ← h.free qe.topicName
      let m ← h.read qe.msg
      let h ← h.free m.payload
      let h ← h.free qe.msg
      emptyMessageQueue h queue

/-- `MQTTClient_closeSession`, as far as the messages are concerned: with `cleansession`
set (and a protocol version below 5, as the wrapper uses) it cleans the session. -/
def closeSession (d : Delivery Addr) : Except (Heap.Fault Addr) (Delivery Addr) :=
  if d.cleansession ≠ 0 then do
    let h ← emptyMessageQueue d.heap d.messageQueue
    return { d with heap := h, messageQueue := [] }
  else
    .ok d

/-- A step of one of the threads. -/
inductive DeliveryEvent (Addr : Type)
  /-- A message arrives; the background thread receives it, so it is not in a callback. -/
  | arrived (x : Arrived Addr)
  /-- The background thread takes its next step. -/
  | background
  /-- The application thread closes the session. -/
  | closeSession
  deriving DecidableEq

/-- The threads as a machine; only a memory fault stops it. -/
def deliveryMachine : Machine (Delivery Addr) (DeliveryEvent Addr) Unit (Heap.Fault Addr) where
  step d
    | .arrived x => if d.phase = .idle then .ok (processPublication x d, ()) else .ok (d, ())
    | .background => (backgroundStep d).map fun d => (d, ())
    | .closeSession => (closeSession d).map fun d => (d, ())

/-- A session without messages. -/
def newSession (cleansession : CInt) : Delivery Addr := ⟨Heap.empty, [], .idle, cleansession⟩

end Model

/-! ## What each function does -/

section Specs

variable {Addr : Type} [DecidableEq Addr] {h : Heap Addr (Block Addr)} {x : Arrived Addr}
  {xs : List (Arrived Addr)} {bs : List Addr}

/-- The blocks of a message hold what the library stored in them. -/
structure Holds (h : Heap Addr (Block Addr)) (x : Arrived Addr) : Prop where
  topic : h.cell x.topic = some .text
  msg : h.cell x.msg = some (.message (some x.payload))
  payload : h.cell x.payload = some .text

omit [DecidableEq Addr] in
/-- **Frame rule.**  A message stays as it is when its blocks do. -/
theorem Holds.congr {h' : Heap Addr (Block Addr)} (hx : Holds h x)
    (hsame : ∀ b ∈ x.blocks, h'.cell b = h.cell b) : Holds h' x where
  topic := (hsame _ (by simp [Arrived.blocks])).trans hx.topic
  msg := (hsame _ (by simp [Arrived.blocks])).trans hx.msg
  payload := (hsame _ (by simp [Arrived.blocks])).trans hx.payload

omit [DecidableEq Addr] in
/-- Messages keep what they hold when only blocks of none of them change. -/
theorem holds_of_frame {h' : Heap Addr (Block Addr)} (hxs : ∀ x ∈ xs, Holds h x)
    (hsame : ∀ b ∈ xs.flatMap Arrived.blocks, h'.cell b = h.cell b) : ∀ x ∈ xs, Holds h' x := by
  intro x hx
  apply (hxs x hx).congr
  intro b hb
  exact hsame b (List.mem_flatMap.mpr ⟨x, hx, hb⟩)

omit [DecidableEq Addr] in
/-- The blocks of a message can be printed. -/
theorem printMessage_ok (hx : Holds h x) : printMessage h x.entry = .ok () := by
  unfold printMessage Arrived.entry
  rw [Heap.read_some hx.topic, Heap.read_some hx.msg]
  show (h.read (some x.payload)).bind _ = _
  rw [Heap.read_some hx.payload]
  rfl

/-- Freeing a message releases its structure and its payload, and nothing else. -/
theorem freeMessage_ok (hmsg : h.cell x.msg = some (.message (some x.payload)))
    (ha : h.Allocated (x.msg :: x.payload :: bs)) :
    ∃ h', freeMessage h (some x.msg) = .ok h' ∧ h'.Allocated bs ∧
      ∀ b, b ≠ x.msg → b ≠ x.payload → h'.cell b = h.cell b := by
  obtain ⟨h₁, hfree₁, ha₁, hsame₁⟩ := (ha.perm (List.Perm.swap x.payload x.msg bs)).free
  obtain ⟨h₂, hfree₂, ha₂, hsame₂⟩ := ha₁.free
  refine ⟨h₂, ?_, ha₂, fun b hb hb' => (hsame₂ b hb).trans (hsame₁ b hb')⟩
  unfold freeMessage
  rw [Heap.read_some hmsg]
  show (h.free (some x.payload)).bind _ = _
  rw [hfree₁]
  exact hfree₂

/-- The first entry: its topic is freed, and then what `MQTTClient_freeMessage` frees. -/
theorem emptyMessageQueue_cons (qe : QEntry Addr) (queue : List (QEntry Addr)) :
    emptyMessageQueue h (qe :: queue) = (do
      let h ← h.free qe.topicName
      let h ← freeMessage h qe.msg
      emptyMessageQueue h queue) := by
  simp only [emptyMessageQueue, freeMessage, bind_assoc]

/-- Emptying the queue releases every message on it. -/
theorem emptyMessageQueue_ok (hxs : ∀ x ∈ xs, Holds h x)
    (ha : h.Allocated (xs.flatMap Arrived.blocks)) :
    ∃ h', emptyMessageQueue h (xs.map Arrived.entry) = .ok h' ∧ h'.Allocated [] := by
  induction xs generalizing h with
  | nil => exact ⟨h, rfl, ha⟩
  | cons x xs ih =>
      have hx := hxs x List.mem_cons_self
      have ha' : h.Allocated (x.topic :: x.msg :: x.payload :: xs.flatMap Arrived.blocks) := ha
      have hnodup := ha'.nodup
      simp only [List.nodup_cons, List.mem_cons, not_or] at hnodup
      obtain ⟨⟨htm, htp, htxs⟩, ⟨hmp, hmxs⟩, hpxs, -⟩ := hnodup
      obtain ⟨h₁, hfree₁, ha₁, hsame₁⟩ := ha'.free
      have hmsg : h₁.cell x.msg = some (.message (some x.payload)) :=
        (hsame₁ x.msg (Ne.symm htm)).trans hx.msg
      obtain ⟨h₂, hfree₂, ha₂, hsame₂⟩ := freeMessage_ok hmsg ha₁
      -- the rest of the queue keeps its blocks
      have hrest : ∀ y ∈ xs, Holds h₂ y := by
        apply holds_of_frame fun y hy => hxs y (List.mem_cons_of_mem _ hy)
        intro b hmem
        rw [hsame₂ b (fun e => hmxs (e ▸ hmem)) (fun e => hpxs (e ▸ hmem)),
          hsame₁ b (fun e => htxs (e ▸ hmem))]
      obtain ⟨h₃, hempty, ha₃⟩ := ih hrest ha₂
      refine ⟨h₃, ?_, ha₃⟩
      rw [List.map_cons, emptyMessageQueue_cons]
      show (h.free (some x.topic)).bind _ = _
      rw [hfree₁]
      show (freeMessage h₁ (some x.msg)).bind _ = _
      rw [hfree₂]
      exact hempty

/-- A session that is not to be cleaned is left as it is. -/
theorem step_closeSession_kept {d : Delivery Addr} (hclean : d.cleansession = 0) :
    deliveryMachine.step d .closeSession = .ok (d, ()) := by
  show (closeSession d).map _ = _
  unfold closeSession
  rw [if_neg (not_not_intro hclean)]
  rfl

/-- A session that is to be cleaned loses its queue. -/
theorem step_closeSession_cleaned {d : Delivery Addr} (hclean : d.cleansession ≠ 0) :
    deliveryMachine.step d .closeSession =
      (emptyMessageQueue d.heap d.messageQueue).map fun h =>
        ({ d with heap := h, messageQueue := [] }, ()) := by
  show (closeSession d).map _ = _
  unfold closeSession
  rw [if_pos hclean]
  cases emptyMessageQueue d.heap d.messageQueue with
  | error f => rfl
  | ok h => rfl

/-- An arriving message adds its blocks, and its entry at the end of the queue. -/
theorem processPublication_ok {d : Delivery Addr} (ha : d.heap.Allocated bs)
    (hnodup : x.blocks.Nodup) (hfresh : ∀ b ∈ x.blocks, d.heap.cell b = none) :
    (processPublication x d).heap.Allocated (bs ++ x.blocks) ∧
      Holds (processPublication x d).heap x ∧
      ∀ b, b ∉ x.blocks → (processPublication x d).heap.cell b = d.heap.cell b := by
  simp only [Arrived.blocks, List.nodup_cons, List.mem_cons, not_or, List.not_mem_nil,
    not_false_eq_true, and_true, List.nodup_nil] at hnodup
  obtain ⟨⟨htm, htp⟩, hmp⟩ := hnodup
  have htopic := hfresh x.topic (by simp [Arrived.blocks])
  have hmsg := hfresh x.msg (by simp [Arrived.blocks])
  have hpayload := hfresh x.payload (by simp [Arrived.blocks])
  refine ⟨?_, ⟨?_, ?_, ?_⟩, ?_⟩
  · have ha₁ := ha.malloc htopic .text
    have ha₂ := ha₁.malloc (a := x.payload)
      (by simpa [Heap.malloc, Function.update_of_ne (Ne.symm htp)] using hpayload) .text
    have ha₃ := ha₂.malloc (a := x.msg)
      (by
        simpa [Heap.malloc, Function.update_of_ne hmp, Function.update_of_ne (Ne.symm htm)]
          using hmsg)
      (.message (some x.payload))
    refine ha₃.perm ?_
    refine List.Perm.trans ?_ List.perm_append_comm
    show (x.msg :: x.payload :: x.topic :: bs).Perm (x.topic :: x.msg :: x.payload :: bs)
    exact ((List.Perm.swap x.topic x.payload bs).cons x.msg).trans (List.Perm.swap x.topic x.msg _)
  · simp [processPublication, Heap.malloc, htm, htp]
  · simp [processPublication, Heap.malloc]
  · simp [processPublication, Heap.malloc, Ne.symm hmp]
  · intro b hb
    simp only [Arrived.blocks, List.mem_cons, not_or, List.not_mem_nil, not_false_eq_true,
      and_true] at hb
    simp [processPublication, Heap.malloc, hb]

end Specs

/-! ## The invariant -/

section Invariant

variable {Addr : Type} [DecidableEq Addr] {d d' : Delivery Addr} {e : DeliveryEvent Addr}

/-- The messages that are not released completely are those on the queue, and nothing
else is allocated.  The first of them may be in delivery: it is still whole until
`MQTTClient_freeMessage` ran, and gone but for its entry once the callback returned. -/
inductive Tracked (d : Delivery Addr) : Prop
  | idle (xs : List (Arrived Addr)) (phase : d.phase = .idle)
      (queue : d.messageQueue = xs.map Arrived.entry) (holds : ∀ x ∈ xs, Holds d.heap x)
      (allocated : d.heap.Allocated (xs.flatMap Arrived.blocks))
  | whole (x : Arrived Addr) (xs : List (Arrived Addr))
      (phase : d.phase = .called x.entry ∨ d.phase = .printed x.entry)
      (queue : d.messageQueue = (x :: xs).map Arrived.entry) (holds : ∀ y ∈ x :: xs, Holds d.heap y)
      (allocated : d.heap.Allocated ((x :: xs).flatMap Arrived.blocks))
  | messageFreed (x : Arrived Addr) (xs : List (Arrived Addr))
    (phase : d.phase = .messageFreed x.entry)
      (queue : d.messageQueue = (x :: xs).map Arrived.entry) (holds : ∀ y ∈ xs, Holds d.heap y)
      (allocated : d.heap.Allocated (x.topic :: xs.flatMap Arrived.blocks))
      (gone : d.heap.cell x.msg = none)
  | topicFreed (x : Arrived Addr) (xs : List (Arrived Addr)) (phase : d.phase = .topicFreed x.entry)
      (queue : d.messageQueue = (x :: xs).map Arrived.entry) (holds : ∀ y ∈ xs, Holds d.heap y)
      (allocated : d.heap.Allocated (xs.flatMap Arrived.blocks)) (gone : d.heap.cell x.topic = none)

/-- Between deliveries every message on the queue is whole. -/
theorem Tracked.of_idle (ht : Tracked d) (hphase : d.phase = .idle) :
    ∃ xs : List (Arrived Addr), d.messageQueue = xs.map Arrived.entry ∧ (∀ x ∈ xs, Holds d.heap x) ∧
      d.heap.Allocated (xs.flatMap Arrived.blocks) := by
  cases ht with
  | idle xs _ queue holds allocated => exact ⟨xs, queue, holds, allocated⟩
  | whole x xs phase => rcases phase with phase | phase <;> simp [phase] at hphase
  | messageFreed x xs phase => simp [phase] at hphase
  | topicFreed x xs phase => simp [phase] at hphase

theorem tracked_newSession (cleansession : CInt) :
    Tracked (newSession cleansession : Delivery Addr) :=
  .idle [] rfl rfl (fun _ h => absurd h List.not_mem_nil) Heap.allocated_empty

/-- A message that arrives is stored in blocks that are not allocated. -/
def ArrivesFresh (d : Delivery Addr) : DeliveryEvent Addr → Prop
  | .arrived x => d.phase = .idle → x.blocks.Nodup ∧ ∀ b ∈ x.blocks, d.heap.cell b = none
  | .background | .closeSession => True

/-- A session that is closed is not cleaned, or nothing is in delivery. -/
def ClosesIdle (d : Delivery Addr) : DeliveryEvent Addr → Prop
  | .closeSession => d.cleansession = 0 ∨ d.phase = .idle
  | .background | .arrived _ => True

instance (d : Delivery Addr) : DecidablePred (ArrivesFresh d)
  | .arrived x => inferInstanceAs
      (Decidable (d.phase = .idle → x.blocks.Nodup ∧ ∀ b ∈ x.blocks, d.heap.cell b = none))
  | .background | .closeSession => isTrue trivial

instance (d : Delivery Addr) : DecidablePred (ClosesIdle d)
  | .closeSession => inferInstanceAs (Decidable (d.cleansession = 0 ∨ d.phase = .idle))
  | .background | .arrived _ => isTrue trivial

/-- Freeing the first of the messages leaves its topic, and the others whole. -/
theorem freeMessage_first {h : Heap Addr (Block Addr)} {x : Arrived Addr} {xs : List (Arrived Addr)}
    (holds : ∀ y ∈ x :: xs, Holds h y)
    (allocated : h.Allocated ((x :: xs).flatMap Arrived.blocks)) :
    ∃ h', freeMessage h (some x.msg) = .ok h' ∧
      h'.Allocated (x.topic :: xs.flatMap Arrived.blocks) ∧
      (∀ y ∈ xs, Holds h' y) ∧ h'.cell x.msg = none := by
  have ha : h.Allocated (x.topic :: x.msg :: x.payload :: xs.flatMap Arrived.blocks) := allocated
  have hnodup := ha.nodup
  simp only [List.nodup_cons, List.mem_cons, not_or] at hnodup
  obtain ⟨⟨htm, -⟩, ⟨-, hmxs⟩, hpxs, -⟩ := hnodup
  have hswap : (x.topic :: x.msg :: x.payload :: xs.flatMap Arrived.blocks).Perm
      (x.msg :: x.payload :: x.topic :: xs.flatMap Arrived.blocks) :=
    (List.Perm.swap x.msg x.topic _).trans ((List.Perm.swap x.payload x.topic _).cons x.msg)
  obtain ⟨h', hfree, ha', hsame⟩ := freeMessage_ok (holds x List.mem_cons_self).msg (ha.perm hswap)
  refine ⟨h', hfree, ha', ?_, ha'.cell_eq_none ?_⟩
  · apply holds_of_frame fun y hy => holds y (List.mem_cons_of_mem _ hy)
    intro b hb
    exact hsame b (fun e => hmxs (e ▸ hb)) (fun e => hpxs (e ▸ hb))
  · exact fun hmem => (List.mem_cons.mp hmem).elim (Ne.symm htm) hmxs

/-- The background thread's steps go through and keep the invariant. -/
theorem tracked_background (ht : Tracked d) : ∃ d', backgroundStep d = .ok d' ∧ Tracked d' := by
  unfold backgroundStep
  cases ht with
  | idle xs phase queue holds allocated =>
      rw [phase, queue]
      cases xs with
      | nil => exact ⟨d, rfl, .idle [] phase queue holds allocated⟩
      | cons x xs =>
          have hread := Heap.read_some (holds x List.mem_cons_self).topic
          refine ⟨{ d with phase := .called x.entry }, ?_, ?_⟩
          · show (d.heap.read (some x.topic)).bind _ = _
            rw [hread, queue]
            rfl
          · exact .whole x xs (Or.inl rfl) queue holds allocated
  | whole x xs phase queue holds allocated =>
      rcases phase with phase | phase
      · rw [phase]
        refine ⟨{ d with phase := .printed x.entry }, ?_, ?_⟩
        · show (printMessage d.heap x.entry).bind _ = _
          rw [printMessage_ok (holds x List.mem_cons_self)]
          rfl
        · exact .whole x xs (Or.inr rfl) queue holds allocated
      · rw [phase]
        obtain ⟨h', hfree, ha', holds', hgone⟩ := freeMessage_first holds allocated
        refine ⟨{ d with heap := h', phase := .messageFreed x.entry }, ?_, ?_⟩
        · show (freeMessage d.heap (some x.msg)).bind _ = _
          rw [hfree]
          rfl
        · exact .messageFreed x xs rfl queue holds' ha' hgone
  | messageFreed x xs phase queue holds allocated _ =>
      rw [phase]
      have hnot : x.topic ∉ xs.flatMap Arrived.blocks := (List.nodup_cons.mp allocated.nodup).1
      obtain ⟨h', hfree, ha', hsame⟩ := allocated.free
      refine ⟨{ d with heap := h', phase := .topicFreed x.entry }, ?_, ?_⟩
      · show (d.heap.free (some x.topic)).bind _ = _
        rw [hfree]
        rfl
      · refine .topicFreed x xs rfl queue ?_ ha' (ha'.cell_eq_none hnot)
        apply holds_of_frame holds
        intro b hb
        exact hsame b fun e => hnot (e ▸ hb)
  | topicFreed x xs phase queue holds allocated _ =>
      rw [phase]
      refine ⟨_, rfl, .idle xs rfl ?_ holds allocated⟩
      show d.messageQueue.erase x.entry = _
      rw [queue, List.map_cons, List.erase_cons_head]

/-- **One step.**  Every step that closes the session between deliveries only goes through
and keeps the invariant. -/
theorem tracked_step (ht : Tracked d) (hfresh : ArrivesFresh d e) (hclose : ClosesIdle d e) :
    ∃ d' r, deliveryMachine.step d e = .ok (d', r) ∧ Tracked d' := by
  cases e with
  | arrived x =>
      by_cases hphase : d.phase = .idle
      · refine ⟨processPublication x d, (), if_pos hphase, ?_⟩
        obtain ⟨hnodup, hfresh⟩ := hfresh hphase
        obtain ⟨xs, queue, holds, allocated⟩ := ht.of_idle hphase
        obtain ⟨ha, hx, hsame⟩ := processPublication_ok allocated hnodup hfresh
        refine .idle (xs ++ [x]) hphase ?_ ?_ ?_
        · show d.messageQueue ++ [x.entry] = _
          rw [queue, List.map_append, List.map_singleton]
        · intro y hy
          rcases List.mem_append.mp hy with hy | hy
          · -- the blocks of the new message are none of those on the queue
            refine holds_of_frame holds (fun b hb => hsame b fun hbx => ?_) y hy
            have hsome := (allocated.mem b).mpr hb
            rw [hfresh b hbx] at hsome
            cases hsome
          · rw [List.mem_singleton.mp hy]
            exact hx
        · rw [List.flatMap_append, List.flatMap_singleton]
          exact ha
      · exact ⟨d, (), if_neg hphase, ht⟩
  | background =>
      obtain ⟨d', hok, ht'⟩ := tracked_background ht
      refine ⟨d', (), ?_, ht'⟩
      show (backgroundStep d).map _ = _
      rw [hok]
      rfl
  | closeSession =>
      by_cases hclean : d.cleansession = 0
      · exact ⟨d, (), step_closeSession_kept hclean, ht⟩
      · have hphase : d.phase = .idle := hclose.resolve_left hclean
        obtain ⟨xs, queue, holds, allocated⟩ := ht.of_idle hphase
        obtain ⟨h', hempty, ha'⟩ := emptyMessageQueue_ok holds allocated
        refine ⟨{ d with heap := h', messageQueue := [] }, (), ?_,
          .idle [] hphase rfl (fun _ h => absurd h List.not_mem_nil) ha'⟩
        rw [step_closeSession_cleaned hclean, queue, hempty]
        rfl

/-! ## Closing the session during a delivery -/

/-- A message is in delivery, but its memory is gone. -/
def Trapped (d : Delivery Addr) : Prop :=
  (∃ x : Arrived Addr, d.phase = .called x.entry ∨ d.phase = .printed x.entry) ∧
    d.messageQueue = [] ∧ ∀ a, d.heap.cell a = none

/-- What closes the session during a delivery faults, or releases the message under the
feet of the callback. -/
theorem trapped_of_close (ht : Tracked d) (hclose : ¬ ClosesIdle d e) {r : Unit}
    (hstep : deliveryMachine.step d e = .ok (d', r)) : Trapped d' := by
  cases e with
  | arrived x => exact absurd trivial hclose
  | background => exact absurd trivial hclose
  | closeSession =>
      obtain ⟨hclean, hbusy⟩ := not_or.mp hclose
      rw [step_closeSession_cleaned hclean] at hstep
      cases ht with
      | idle xs phase => exact absurd phase hbusy
      | whole x xs phase queue holds allocated =>
          obtain ⟨h', hempty, ha'⟩ := emptyMessageQueue_ok holds allocated
          rw [queue, hempty] at hstep
          cases hstep
          exact ⟨⟨x, phase⟩, rfl, fun a => ha'.cell_eq_none List.not_mem_nil⟩
      | messageFreed x xs phase queue holds allocated gone =>
          -- the topic is freed, but the message structure is read after it was freed
          obtain ⟨h', hfree, ha', -⟩ := allocated.free
          have hmsg : h'.cell x.msg = none := by
            apply ha'.cell_eq_none
            intro hmem
            have hsome := (allocated.mem x.msg).mpr (List.mem_cons_of_mem _ hmem)
            rw [gone] at hsome
            cases hsome
          rw [queue, List.map_cons, emptyMessageQueue_cons] at hstep
          change ((d.heap.free (some x.topic)).bind _).map _ = _ at hstep
          rw [hfree] at hstep
          change (((h'.read (some x.msg)).bind _).bind _).map _ = _ at hstep
          rw [Heap.read_of_none hmsg] at hstep
          cases hstep
      | topicFreed x xs phase queue holds allocated gone =>
          -- the topic is freed a second time
          rw [queue, List.map_cons, emptyMessageQueue_cons] at hstep
          change ((d.heap.free (some x.topic)).bind _).map _ = _ at hstep
          rw [Heap.free_of_none gone] at hstep
          cases hstep

/-- The callback does not come out of the trap. -/
theorem trapped_step (ht : Trapped d) {r : Unit} (hstep : deliveryMachine.step d e = .ok (d', r)) :
    Trapped d' := by
  obtain ⟨⟨x, hphase⟩, hqueue, hcell⟩ := ht
  cases e with
  | arrived y =>
      have hbusy : d.phase ≠ .idle := by
        rcases hphase with hphase | hphase <;> simp [hphase]
      change (if d.phase = .idle then _ else _) = _ at hstep
      rw [if_neg hbusy] at hstep
      cases hstep
      exact ⟨⟨x, hphase⟩, hqueue, hcell⟩
  | background =>
      -- the next step of the callback reads the topic or the message
      change (backgroundStep d).map _ = _ at hstep
      unfold backgroundStep at hstep
      rcases hphase with hphase | hphase
      · rw [hphase] at hstep
        change (((d.heap.read (some x.topic)).bind _).bind _).map _ = _ at hstep
        rw [Heap.read_of_none (hcell x.topic)] at hstep
        cases hstep
      · rw [hphase] at hstep
        change (((d.heap.read (some x.msg)).bind _).bind _).map _ = _ at hstep
        rw [Heap.read_of_none (hcell x.msg)] at hstep
        cases hstep
  | closeSession =>
      by_cases hclean : d.cleansession = 0
      · rw [step_closeSession_kept hclean] at hstep
        cases hstep
        exact ⟨⟨x, hphase⟩, hqueue, hcell⟩
      · rw [step_closeSession_cleaned hclean, hqueue] at hstep
        cases hstep
        exact ⟨⟨x, hphase⟩, rfl, hcell⟩

end Invariant

/-! ## Release -/

section Release

variable {Addr : Type} [DecidableEq Addr]

/-- Both threads are through: nothing is in delivery, and no message waits. -/
def Finished (d : Delivery Addr) : Prop := d.phase = .idle ∧ d.messageQueue = []

instance (d : Delivery Addr) : Decidable (Finished d) :=
  inferInstanceAs (Decidable (d.phase = .idle ∧ d.messageQueue = []))

/-- The run reads and frees no memory that was freed, and in the end every block of every
message was freed as often as it was allocated. -/
def ReleasesOnce (d : Delivery Addr) (es : List (DeliveryEvent Addr)) : Prop :=
  (deliveryMachine.run d es).stop = none ∧
    ∀ a, (deliveryMachine.run d es).state.heap.log.count (.malloc a) =
      (deliveryMachine.run d es).state.heap.log.count (.free a)

/-- **When each message is released once.**  An interleaving of arrivals, deliveries and
session closes that lets the threads finish, unless a fault stops them, releases every
message exactly once exactly when no session that is to be cleaned is closed between the
taking of an entry and its unlinking. -/
theorem message_release_law (cleansession : CInt) (es : List (DeliveryEvent Addr))
    (hfresh : deliveryMachine.Along ArrivesFresh (newSession cleansession) es)
    (hfinish : (deliveryMachine.run (newSession cleansession) es).stop = none →
      Finished (deliveryMachine.run (newSession cleansession) es).state) :
    ReleasesOnce (newSession cleansession) es ↔
      deliveryMachine.Along ClosesIdle (newSession cleansession) es := by
  have hinit : Tracked (newSession cleansession : Delivery Addr) := tracked_newSession cleansession
  constructor
  · rintro ⟨hrun, -⟩
    refine Machine.along_of_not_trapped (T := Trapped) hfresh hinit ?_ ?_ ?_ hrun ?_
    · intro d e d' r ht hf hc hstep
      obtain ⟨d'', r', hok, ht'⟩ := tracked_step ht hf hc
      rw [hstep] at hok
      cases hok
      exact ht'
    · intro d e d' r ht _ hc hstep
      exact trapped_of_close ht hc hstep
    · intro d e d' r ht hstep
      exact trapped_step ht hstep
    · rintro ⟨⟨x, hphase⟩, -⟩
      have hidle := (hfinish hrun).1
      rcases hphase with hphase | hphase <;> simp [hphase] at hidle
  · intro hclose
    obtain ⟨hrun, ht⟩ :=
      Machine.run_ok hfresh hclose hinit fun d e ht hf hc => tracked_step ht hf hc
    obtain ⟨hidle, hqueue⟩ := hfinish hrun
    obtain ⟨xs, queue, -, allocated⟩ := ht.of_idle hidle
    have hnil : xs = [] := List.map_eq_nil_iff.mp (queue.symm.trans hqueue)
    rw [hnil] at allocated
    exact ⟨hrun, allocated.released⟩

/-- Two messages arrive; the first is delivered, and the session is closed before the
second one is taken. -/
def closedBetween : List (DeliveryEvent ℕ) :=
  [.arrived ⟨1, 2, 3⟩, .arrived ⟨4, 5, 6⟩, .background, .background, .background, .background,
    .background, .closeSession]

theorem message_release_law_between : ReleasesOnce (newSession 1) closedBetween :=
  (message_release_law 1 closedBetween (by decide) (by decide)).mpr (by decide)

/-- The session is closed while the callback is about to free the message. -/
def closedDuring : List (DeliveryEvent ℕ) :=
  [.arrived ⟨1, 2, 3⟩, .background, .background, .closeSession, .background]

/-- Closing the session frees the message that `MQTTClient_freeMessage` then reads and
frees again. -/
theorem closed_during_delivery :
    deliveryMachine.Along ArrivesFresh (newSession 1) closedDuring ∧
      (deliveryMachine.run (newSession 1) (closedDuring.take 4)).stop = none ∧
      (deliveryMachine.run (newSession 1) closedDuring).stop = some (.unallocated 2) ∧
      ¬ ReleasesOnce (newSession 1) closedDuring := by
  have hstop : (deliveryMachine.run (newSession 1) closedDuring).stop = some (.unallocated 2) := by
    decide
  refine ⟨by decide, by decide, hstop, ?_⟩
  rintro ⟨hrun, -⟩
  rw [hrun] at hstop
  cases hstop

end Release
