/-
# Reading packets from sockets (`SocketBuffer.c`, `Socket.c`, `MQTTPacket.c`)

A socket gives the bytes of a packet in pieces, and may give none for a while.  What has
come of a packet is kept in a queue of the socket, and when the socket is ready again the
packet is read from its first byte, the queued ones first.  The sockets share one default
queue, which becomes the queue of a socket whose packet is not complete.

After an error the queues are left as they are until the socket is closed, and it is closed by
the callers of `MQTTClient_cycle`, not all of them at once (`Reader.State.ClosesFailed`).

Memory that was not written has no value, and neither has what is outside of a buffer: to
read the one or to write the other is a fault.
-/
import DataLogger.MqttPacket
import DataLogger.Library.Machine

/-- Why reading has no defined outcome. -/
inductive ReadFault
  /-- It uses a byte that was not written. -/
  | uninitialised
  /-- It writes past the end of a buffer. -/
  | overrun
  deriving DecidableEq, Repr

/-- What a function that reads leaves: what it read, or why it has not read it. -/
inductive ReadResult (α : Type*)
  | complete (a : α)
  /-- `TCPSOCKET_INTERRUPTED`. -/
  | interrupted
  /-- `SOCKET_ERROR`. -/
  | error
  deriving DecidableEq, Repr

/-! ## The network -/

/-- What a socket has for its reader: bytes that came together, a moment in which there are
none, the end of the stream, or an error. -/
inductive Arrival
  | chunk (c : UInt8) (cs : List UInt8)
  | wouldBlock
  | closed
  | failed
  deriving DecidableEq, Repr

/-- What `recv` returns. -/
inductive Recv
  | bytes (bs : List UInt8)
  | wouldBlock
  | closed
  | failed
  deriving DecidableEq, Repr

/-- What `recv` of up to `n` bytes returns, and what is left for the next one. -/
def Arrival.recv (n : ℕ) : List Arrival → Recv × List Arrival
  | [] => (.wouldBlock, [])
  | .chunk c cs :: rest =>
      (.bytes ((c :: cs).take n), match (c :: cs).drop n with
        | [] => rest
        | d :: ds => .chunk d ds :: rest)
  | .wouldBlock :: rest => (.wouldBlock, rest)
  | .closed :: rest => (.closed, .closed :: rest)
  | .failed :: rest => (.failed, rest)

/-! ## Queues (`SocketBuffer.c`) -/

/-- A byte of memory. -/
abbrev Cell := Option UInt8

/-- `socket_queue`. -/
structure SocketQueue where
  socket : CInt
  index : ℕ
  headerlen : ℕ
  fixedHeader : List Cell
  buflen : ℕ
  datalen : ℕ
  buf : List Cell
  deriving DecidableEq, Repr

/-- The variables of `SocketBuffer.c` that reading uses: `def_queue`, and the list `queues`. -/
structure SocketBuffer where
  defQueue : SocketQueue
  queues : List SocketQueue
  deriving DecidableEq, Repr

/-- `SocketBuffer_newDefQ`.  The length of the buffer is overwritten with 0. -/
def newDefQ : SocketQueue where
  socket := 0
  index := 0
  headerlen := 0
  fixedHeader := List.replicate 5 none
  buflen := 0
  datalen := 0
  buf := List.replicate 1000 none

namespace SocketBuffer

/-- `SocketBuffer_initialize`. -/
def initial : SocketBuffer := ⟨newDefQ, []⟩

/-- Find the queue of a socket (`ListFindItem` with `socketcompare`). -/
def find (b : SocketBuffer) (socket : CInt) : Option SocketQueue :=
  b.queues.find? fun q => q.socket = socket

/-- Replace the first queue of a socket. -/
def replaceFirst (socket : CInt) (q : SocketQueue) : List SocketQueue → List SocketQueue
  | [] => []
  | q' :: qs => if q'.socket = socket then q :: qs else q' :: replaceFirst socket q qs

/-- The queue that a socket uses: its own one, or the default queue. -/
def queueOf (b : SocketBuffer) (socket : CInt) : SocketQueue := (b.find socket).getD b.defQueue

/-- Write to the queue that a socket uses. -/
def setQueueOf (b : SocketBuffer) (socket : CInt) (q : SocketQueue) : SocketBuffer :=
  if b.find socket = none then { b with defQueue := q }
  else { b with queues := replaceFirst socket q b.queues }

/-- `SocketBuffer_getQueuedData`: the number of bytes that are there, after the buffer was made
large enough for all of them. -/
def getQueuedData (b : SocketBuffer) (socket : CInt) (bytes : ℕ) : ℕ × SocketBuffer :=
  let queue := b.queueOf socket
  let actualLen := if b.find socket = none then 0 else queue.datalen
  if queue.buflen < bytes then
    let buf :=
      -- the memory is replaced before its content is copied
      if 0 < queue.datalen then List.replicate bytes none
      else queue.buf.take bytes ++ List.replicate (bytes - queue.buf.length) none
    (actualLen, b.setQueueOf socket { queue with buf := buf, buflen := bytes })
  else (actualLen, b)

/-- `SocketBuffer_getQueuedChar`; `interrupted` when there is no character left. -/
def getQueuedChar (b : SocketBuffer) (socket : CInt) :
    Except ReadFault (ReadResult UInt8 × SocketBuffer) :=
  match b.find socket with
  | none => .ok (.interrupted, b)
  | some queue =>
      if queue.index < queue.headerlen then
        match queue.fixedHeader.getD queue.index none with
        | none => .error .uninitialised
        | some c => .ok (.complete c, b.setQueueOf socket { queue with index := queue.index + 1 })
      else if 4 < queue.index then .ok (.error, b)
      else .ok (.interrupted, b)

/-- `SocketBuffer_interrupted`. -/
def interrupted (b : SocketBuffer) (socket : CInt) (actualLen : ℕ) : SocketBuffer :=
  match b.find socket with
  | some queue => b.setQueueOf socket { queue with index := 0, datalen := actualLen }
  | none =>
      ⟨newDefQ, b.queues ++
        [{ b.defQueue with socket := socket, index := 0, datalen := actualLen }]⟩

/-- `SocketBuffer_complete`.  The buffer of the default queue is what the caller gets. -/
def complete (b : SocketBuffer) (socket : CInt) : SocketBuffer :=
  let b : SocketBuffer := match b.find socket with
    | some queue => ⟨queue, b.queues.eraseP fun q => q.socket = socket⟩
    | none => b
  { b with defQueue := { b.defQueue with socket := 0, index := 0, headerlen := 0, datalen := 0 } }

/-- `SocketBuffer_queueChar`. -/
def queueChar (b : SocketBuffer) (socket : CInt) (c : UInt8) : SocketBuffer :=
  let own := b.find socket ≠ none
  let b : SocketBuffer :=
    if ¬ own ∧ b.defQueue.socket = 0 then
      { b with defQueue := { b.defQueue with socket := socket, index := 0, datalen := 0 } }
    else b
  let curq := b.queueOf socket
  -- the default queue is in use for another socket, or the header is full
  if (¬ own ∧ curq.socket ≠ socket) ∨ 4 < curq.index then b
  else
    b.setQueueOf socket { curq with
      fixedHeader := curq.fixedHeader.set curq.index (some c)
      index := curq.index + 1
      headerlen := curq.index + 1 }

/-- `SocketBuffer_cleanup`, for the queues that reading uses. -/
def cleanup (b : SocketBuffer) (socket : CInt) : SocketBuffer :=
  let b := { b with queues := b.queues.eraseP fun q => q.socket = socket }
  if b.defQueue.socket = socket then
    { b with defQueue := { b.defQueue with socket := 0, index := 0, headerlen := 0, datalen := 0 } }
  else b

end SocketBuffer

/-! ## Reading (`Socket.c`, `MQTTPacket.c`) -/

/-- What reading works on: the queues, and what each socket has for its reader. -/
structure Reader where
  buffers : SocketBuffer
  net : CInt → List Arrival

namespace Reader

/-- `recv`. -/
def recv (r : Reader) (socket : CInt) (n : ℕ) : Recv × Reader :=
  let res := Arrival.recv n (r.net socket)
  (res.1, { r with net := fun s => if s = socket then res.2 else r.net s })

/-- `Socket_getch`. -/
def getch (r : Reader) (socket : CInt) : Except ReadFault (ReadResult UInt8 × Reader) := do
  let (queued, buffers) ← r.buffers.getQueuedChar socket
  let r := { r with buffers := buffers }
  match queued with
  | .complete c => return (.complete c, r)
  | .error => return (.error, r)
  | .interrupted =>
      match r.recv socket 1 with
      | (.bytes (c :: _), r) =>
        return (.complete c, { r with buffers := r.buffers.queueChar socket c })
      | (.wouldBlock, r) =>
        return (.interrupted, { r with buffers := r.buffers.interrupted socket 0 })
      | (_, r) => return (.error, r)

/-- The loop of `MQTTPacket_decode`, with the bytes that it may still read. -/
def mqttPacketDecodeLoop (socket : CInt) :
    ℕ → CInt → CULong → Reader → Except ReadFault (ReadResult CULong × Reader)
  | 0, _, _, r => .ok (.error, r)
  | left + 1, multiplier, value, r => do
      match ← r.getch socket with
      | (.complete c, r) =>
          let value := value + CInt.toULong ((c &&& 127).toBitVec.zeroExtend 32 * multiplier)
          if c &&& 128 ≠ 0 then mqttPacketDecodeLoop socket left (multiplier * 128) value r
          else return (.complete value, r)
      | (.interrupted, r) => return (.interrupted, r)
      | (.error, r) => return (.error, r)

/-- `MQTTPacket_decode`. -/
def mqttPacketDecode (r : Reader) (socket : CInt) : Except ReadFault (ReadResult CULong × Reader) :=
  mqttPacketDecodeLoop socket maxNoOfRemainingLengthBytes 1 0 r

/-- Write `bs` to the buffer of the queue that a socket uses, from `start` on. -/
def store (r : Reader) (socket : CInt) (start : ℕ) (bs : List UInt8) : Except ReadFault Reader :=
  let queue := r.buffers.queueOf socket
  if queue.buf.length < start + bs.length then .error .overrun
  else
    let buf := queue.buf.take start ++ bs.map some ++ queue.buf.drop (start + bs.length)
    .ok { r with buffers := r.buffers.setQueueOf socket { queue with buf := buf } }

/-- The end of `Socket_getdata`, with the bytes that have come: the data, if there are any. -/
def finishData (r : Reader) (socket : CInt) (bytes actualLen : ℕ) :
    ReadResult (List Cell) × Reader :=
  if actualLen = bytes then
    (.complete ((r.buffers.queueOf socket).buf.take bytes),
      { r with buffers := r.buffers.complete socket })
  else (.interrupted, { r with buffers := r.buffers.interrupted socket actualLen })

/-- `Socket_getdata`: the data, if all of them have come.  The data of a packet without any are not
looked at. -/
def getdata (r : Reader) (socket : CInt) (bytes : ℕ) :
    Except ReadFault (ReadResult (List Cell) × Reader) :=
  if bytes = 0 then .ok (.complete [], { r with buffers := r.buffers.complete socket })
  else
    let (actualLen, buffers) := r.buffers.getQueuedData socket bytes
    let r := { r with buffers := buffers }
    match r.recv socket (bytes - actualLen) with
    | (.bytes bs, r) => do
        let r ← r.store socket actualLen bs
        return r.finishData socket bytes (actualLen + bs.length)
    | (.wouldBlock, r) => .ok (r.finishData socket bytes actualLen)
    | (_, r) => .ok (.error, r)

/-- The values of bytes of memory. -/
def values : List Cell → Except ReadFault (List UInt8)
  | [] => .ok []
  | none :: _ => .error .uninitialised
  | some c :: cells => (values cells).map (c :: ·)

/-- `MQTTPacket_Factory` up to where the packet has come as a whole: its header byte and its
rest. -/
def readPacket (r : Reader) (socket : CInt) :
    Except ReadFault (ReadResult (UInt8 × List UInt8) × Reader) := do
  match ← r.getch socket with
  | (.complete aHeader, r) =>
      match ← r.mqttPacketDecode socket with
      | (.complete remainingLength, r) =>
          match ← r.getdata socket remainingLength.toNat with
          | (.complete data, r) => return (.complete (aHeader, ← values data), r)
          | (.interrupted, r) => return (.interrupted, r)
          | (.error, r) => return (.error, r)
      | (.interrupted, r) => return (.interrupted, r)
      | (.error, r) => return (.error, r)
  | (.interrupted, r) => return (.interrupted, r)
  | (.error, r) => return (.error, r)

/-- A socket that is closed has nothing more for its reader (`Socket_close`). -/
def close (r : Reader) (socket : CInt) : Reader where
  buffers := r.buffers.cleanup socket
  net := fun s => if s = socket then [] else r.net s

/-- The reader between two events, with the sockets that a read has `failed` for and that are still
open.  No function looks at these; they are there to say what the callers do with them. -/
structure State extends Reader where
  failed : List CInt

/-- What happens to the reader: the number of a socket that was closed is given to a new connection,
which will give some bytes, a socket is ready, or a socket is closed. -/
inductive Event
  | connect (socket : CInt) (arrivals : List Arrival)
  | ready (socket : CInt)
  | close (socket : CInt)
  deriving DecidableEq, Repr

namespace State

/-- Nothing has been read. -/
def initial (net : CInt → List Arrival) : State := ⟨⟨.initial, net⟩, []⟩

/-- A socket is closed. -/
def close (r : State) (socket : CInt) : State :=
  ⟨r.toReader.close socket, r.failed.filter (· ≠ socket)⟩

/-- One event, with the outcome for the socket.  As in `MQTTClient_cycle` a packet is read, and
after an error the socket stays open. -/
def step (r : State) :
    Event → Except ReadFault (State × Option (CInt × ReadResult (UInt8 × List UInt8)))
  | .connect socket arrivals =>
      .ok ({ r.close socket with net := fun s => if s = socket then arrivals else r.net s }, none)
  | .ready socket =>
      if 0 < socket.toInt then do
        match ← r.readPacket socket with
        | (.error, reader) => return (⟨reader, socket :: r.failed⟩, some (socket, .error))
        | (res, reader) => return (⟨reader, r.failed⟩, some (socket, res))
      else .ok (r, none)
  | .close socket => .ok (r.close socket, none)

/-- A socket that a read has failed for is closed before the next one is read.  `MQTTClient_cycle`
leaves that to its callers: `MQTTClient_run` and `MQTTClient_yield` close the socket at once if its
client is connected; while a client waits for its `CONNACK` it is closed only by the thread that
connects it, and `MQTTClient_receive` does not close the socket of another client. -/
def ClosesFailed (r : State) : Event → Prop
  | .ready _ => r.failed = []
  | _ => True

instance (r : State) : DecidablePred r.ClosesFailed
  | .ready _ => inferInstanceAs (Decidable (_ = _))
  | .connect _ _ => .isTrue trivial
  | .close _ => .isTrue trivial

end State

end Reader

/-- The machine that reads packets from any number of sockets. -/
def readerMachine :
    Machine Reader.State Reader.Event (Option (CInt × ReadResult (UInt8 × List UInt8))) ReadFault :=
  ⟨Reader.State.step⟩
