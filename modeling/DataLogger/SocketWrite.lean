/-
# Writing packets to sockets (`Socket.c`, `SocketBuffer.c`, `MQTTClient.c`)

A packet is given to a socket in one call.  When the socket takes only a part of it, what is
missing is kept and the socket is listed, and nothing else is written to it until the rest has
gone: `Socket_getReadySocket` goes on with the listed sockets that have room.

The list of those sockets has a cursor, which is also moved by the question whether a socket has
pending output, and where the loop goes on after it has removed a socket is where the cursor is.

The calls are taken to be atomic, but for the callback that the loop itself makes.  The source does
not see to that in all of them: the loop holds `socket_mutex`, while who asks the question, or sends
a packet, may hold only `mqttclient_mutex`, so that in several threads the cursor can be moved under
the loop.
-/
import DataLogger.CTypes
import DataLogger.Library.Machine
import DataLogger.Library.DoublyLinked

/-- Why writing has no defined outcome. -/
inductive WriteFault
  /-- What is pending for a socket is used, but there is nothing. -/
  | null
  /-- An element is used that is not in its list any more. -/
  | dangling
  /-- The loop has run out of fuel. -/
  | unfinished
  deriving DecidableEq, Repr

/-- What `writev` finds: room for some bytes, none at the moment, or an error. -/
inductive Room
  | bytes (n : ℕ)
  | wouldBlock
  | failed
  deriving DecidableEq, Repr

/-- What `Socket_putdatas` returns. -/
inductive WriteResult
  /-- `TCPSOCKET_COMPLETE`. -/
  | complete
  /-- `TCPSOCKET_INTERRUPTED`. -/
  | interrupted
  /-- `SOCKET_ERROR`. -/
  | error
  /-- `PAHO_MEMORY_ERROR`. -/
  | memoryError
  deriving DecidableEq, Repr

/-- What `malloc` has for a write that is interrupted: the memory for the number of the socket, for
what is pending and its element, for the element of the socket, and for a copy of the
publication. -/
structure WriteMemory (Name : Type) where
  sockmem : Bool
  pending : Bool
  element : Option Name
  copy : Bool
  deriving DecidableEq, Repr

/-- `pending_writes`: the buffers of a packet, and how much of them was written. -/
structure PendingWrites where
  socket : CInt
  bytes : ℕ
  total : ℕ
  iovecs : List (List UInt8)
  deriving DecidableEq, Repr

/-- The variables that writing uses: the list `writes` of `SocketBuffer.c`, `write_pending` with the
names of its elements, and `pending_wset`; the sockets of `state.pending_writes`, for which a
publication is kept; and the bytes that each connection has taken. -/
structure PacketWriter (Name : Type) where
  writes : List PendingWrites
  writePending : CursorList Name CInt
  pendingWset : List CInt
  statePendingWrites : List CInt
  taken : CInt → List UInt8

namespace PacketWriter

variable {Name : Type} [DecidableEq Name]

/-- Nothing is pending. -/
def initial : PacketWriter Name := ⟨[], CursorList.empty, [], [], fun _ => []⟩

/-! ## What is pending -/

/-- `Socket_noPendingWrites`, which moves the cursor. -/
def noPendingWrites (w : PacketWriter Name) (socket : CInt) : Bool × PacketWriter Name :=
  let res := w.writePending.find fun x => x.2 = socket
  (res.1.isNone, { w with writePending := res.2 })

/-- `SocketBuffer_getWrite`. -/
def getWrite (w : PacketWriter Name) (socket : CInt) : Option PendingWrites :=
  w.writes.find? fun pw => pw.socket = socket

/-- Store the number of bytes that were written. -/
def setBytes (socket : CInt) (bytes : ℕ) : List PendingWrites → List PendingWrites
  | [] => []
  | pw :: pws =>
      if pw.socket = socket then { pw with bytes := bytes } :: pws
        else pw :: setBytes socket bytes pws

/-- `SocketBuffer_pendingWrite`. -/
def pendingWrite (w : PacketWriter Name) (memory : Bool) (pw : PendingWrites) : PacketWriter Name :=
  if memory then { w with writes := w.writes ++ [pw] } else w

/-- `SocketBuffer_writeComplete`. -/
def writeComplete (w : PacketWriter Name) (socket : CInt) : PacketWriter Name :=
  { w with writes := w.writes.eraseP fun pw => pw.socket = socket }

/-- `FD_CLR` on `pending_wset`. -/
def clear (w : PacketWriter Name) (socket : CInt) : PacketWriter Name :=
  { w with pendingWset := w.pendingWset.filter fun s => s ≠ socket }

/-- The loop of `MQTTProtocol_checkPendingWrites`. -/
def checkPendingWritesLoop : List CInt → PacketWriter Name → PacketWriter Name
  | [], w => { w with statePendingWrites := [] }
  | socket :: sockets, w =>
      let (free, w) := w.noPendingWrites socket
      let w := checkPendingWritesLoop sockets w
      if free then w else { w with statePendingWrites := socket :: w.statePendingWrites }

/-- `MQTTProtocol_checkPendingWrites`: the publications are released that are written. -/
def checkPendingWrites (w : PacketWriter Name) : PacketWriter Name :=
  checkPendingWritesLoop w.statePendingWrites w

/-! ## Writing -/

/-- `Socket_writev`: how many bytes were written, if there was no error. -/
def writev (w : PacketWriter Name) (socket : CInt) (iovecs : List (List UInt8)) (room : Room) :
    Option ℕ × PacketWriter Name :=
  match room with
  | .failed => (none, w)
  | .wouldBlock => (some 0, w)
  | .bytes n =>
      (some (min n iovecs.flatten.length),
        { w with
          taken := fun s =>
            if s = socket then w.taken s ++ iovecs.flatten.take n else w.taken s })

/-- `Socket_putdatas`. -/
def putdatas (w : PacketWriter Name) (socket : CInt) (bufs : List (List UInt8)) (room : Room)
    (memory : WriteMemory Name) : WriteResult × PacketWriter Name :=
  let (free, w) := w.noPendingWrites socket
  -- nothing is written behind a packet that is not complete
  if ¬ free then (.error, w)
  else
    let total := (bufs.map List.length).sum
    match w.writev socket bufs room with
    | (none, w) => (.error, w)
    | (some bytes, w) =>
        if bytes = total then (.complete, w)
        else if ¬ memory.sockmem then (.memoryError, w)
        else
          -- whether there was memory for what is pending is not looked at
          let w := w.pendingWrite memory.pending ⟨socket, bytes, total, bufs⟩
          match memory.element with
          | none => (.memoryError, w)
          | some name =>
              (.interrupted, { w with
                writePending := w.writePending.append name socket
                pendingWset := socket :: w.pendingWset })

/-- `MQTTProtocol_storeQoS0`, as far as the list of copies goes. -/
def storeQoS0 (w : PacketWriter Name) (socket : CInt) (memory : WriteMemory Name) :
    PacketWriter Name :=
  if memory.copy then { w with statePendingWrites := w.statePendingWrites ++ [socket] } else w

/-- `MQTTProtocol_startPublishCommon`, and the other packets, for which `qos0` is false. -/
def send (w : PacketWriter Name) (socket : CInt) (qos0 : Bool) (bufs : List (List UInt8))
    (room : Room) (memory : WriteMemory Name) : WriteResult × PacketWriter Name :=
  let (rc, w) := w.putdatas socket bufs room memory
  (rc, if qos0 ∧ rc = .interrupted then w.storeQoS0 socket memory else w)

/-- The buffers from the byte `bytes` on, as `Socket_continueWrite` takes them: a buffer that was
written in part is the last one. -/
def restIovecs (bytes : ℕ) : ℕ → List (List UInt8) → List (List UInt8)
  | _, [] => []
  | curbuflen, iovec :: iovecs =>
      if bytes ≤ curbuflen then iovec :: restIovecs bytes (curbuflen + iovec.length) iovecs
      else if bytes < curbuflen + iovec.length then [iovec.drop (bytes - curbuflen)]
      else restIovecs bytes (curbuflen + iovec.length) iovecs

/-- `Socket_continueWrite`: 0 is incomplete, 1 is complete, and -1 is an error. -/
def continueWrite (w : PacketWriter Name) (socket : CInt) (room : Room) :
    Except WriteFault (ℤ × PacketWriter Name) :=
  match w.getWrite socket with
  | none => .error .null
  | some pw =>
      match w.writev socket (restIovecs pw.bytes 0 pw.iovecs) room with
      | (none, w) => .ok (-1, w)
      | (some bytes, w) =>
          let w := { w with writes := setBytes socket (pw.bytes + bytes) w.writes }
          .ok (if pw.bytes + bytes = pw.total then 1 else 0, w)

/-- The loop of `Socket_continueWrites`, with what the writes find: the sockets with which
`MQTTClient_writeComplete` is called, and its results. -/
def continueWritesLoop (pwset : List CInt) :
    ℕ → Option Name → List Room → PacketWriter Name →
      Except WriteFault (List (CInt × ℤ) × PacketWriter Name)
  | _, none, _, w => .ok ([], w)
  | 0, some _, _, _ => .error .unfinished
  | fuel + 1, some curpending, rooms, w =>
      match w.writePending.items.find? fun x => x.1 = curpending with
      | none => .error .dangling
      | some (_, socket) =>
          if socket ∈ pwset then do
            let (rc, w) ← w.continueWrite socket (rooms.headD .wouldBlock)
            if rc ≠ 0 then
              let w := (w.writeComplete socket).clear socket
              let w := { w with
                writePending := (w.writePending.remove fun x => x.1 = curpending).2 }
              -- the cursor is read before the callback moves it
              let (done, w) ← continueWritesLoop pwset fuel w.writePending.current rooms.tail
                w.checkPendingWrites
              return ((socket, rc) :: done, w)
            else
              continueWritesLoop pwset fuel (CursorList.nextName curpending w.writePending.items)
                rooms.tail w
          else
            continueWritesLoop pwset fuel (CursorList.nextName curpending w.writePending.items)
              rooms w

/-- `Socket_continueWrites`. -/
def continueWrites (w : PacketWriter Name) (pwset : List CInt) (rooms : List Room) :
    Except WriteFault (List (CInt × ℤ) × PacketWriter Name) :=
  let n := w.writePending.items.length
  continueWritesLoop pwset (n * n + n) (CursorList.firstName w.writePending.items) rooms w

/-- `Socket_close`, for what writing uses. -/
def close (w : PacketWriter Name) (socket : CInt) : PacketWriter Name :=
  -- `SocketBuffer_cleanup` gives up what is pending
  let w := (w.clear socket).writeComplete socket
  { w with writePending := (w.writePending.remove fun x => x.2 = socket).2 }

/-! ## The machine -/

/-- What happens to the writer. -/
inductive Event (Name : Type)
  /-- The number of a socket is given to a new connection. -/
  | connect (socket : CInt)
  | send (socket : CInt) (qos0 : Bool) (bufs : List (List UInt8)) (room : Room)
    (memory : WriteMemory Name)
  /-- Somebody asks whether output is pending. -/
  | noPendingWrites (socket : CInt)
  /-- `select` has found room for the sockets `pwset`. -/
  | continueWrites (pwset : List CInt) (rooms : List Room)
  | close (socket : CInt)
  deriving DecidableEq, Repr

/-- What is seen of an event. -/
inductive Observation
  | none
  | sent (socket : CInt) (bufs : List (List UInt8)) (rc : WriteResult)
  | free (socket : CInt) (noPending : Bool)
  | continued (done : List (CInt × ℤ))
  deriving DecidableEq, Repr

/-- One event.  That no event comes while another one is under way is an assumption. -/
def step (w : PacketWriter Name) : Event Name → Except WriteFault (PacketWriter Name × Observation)
  | .connect socket =>
      -- the number may have been that of another connection
      let w := w.close socket
      .ok ({ w with taken := fun s => if s = socket then [] else w.taken s }, .none)
  | .send socket qos0 bufs room memory =>
      let (rc, w) := w.send socket qos0 bufs room memory
      .ok (w, .sent socket bufs rc)
  | .noPendingWrites socket =>
      let (free, w) := w.noPendingWrites socket
      .ok (w, .free socket free)
  | .continueWrites pwset rooms =>
      (w.continueWrites pwset rooms).map fun (done, w) => (w, .continued done)
  | .close socket => .ok (w.close socket, .none)

end PacketWriter

/-- The machine that writes packets to any number of sockets. -/
def writerMachine (Name : Type) [DecidableEq Name] :
    Machine (PacketWriter Name) (PacketWriter.Event Name) PacketWriter.Observation WriteFault :=
  ⟨PacketWriter.step⟩
