/-
# What is written to a connection

Over any run, with any number of sockets to which packets are written in pieces, the bytes that a
connection has taken, followed by those that are pending for it, are the packets that were accepted
for it, one after the other.

* `PacketWriter.Ok` : what holds between two events;
* `PacketWriter.Flow` : what writing does to one connection.
-/
import DataLogger.SocketWrite
import DataLogger.PacketStream
import Mathlib.Tactic.Linarith

namespace PacketWriter

variable {Name : Type}

/-! ## What is pending -/

/-- What is missing of the packet that is written to a socket. -/
def rest (w : PacketWriter Name) (s : CInt) : List UInt8 :=
  match w.getWrite s with
  | none => []
  | some pw => pw.iovecs.flatten.drop pw.bytes

/-- What a connection has taken, and what is pending for it. -/
def stream (w : PacketWriter Name) (s : CInt) : List UInt8 := w.taken s ++ w.rest s

/-- The sockets with pending output. -/
def pendingSockets (w : PacketWriter Name) : List CInt := w.writePending.items.map Prod.snd

/-- What holds between two events: the two lists are about the same sockets, each of them once, all
of which are watched; the cursor is in its list; and no write that is pending is complete. -/
structure Ok (w : PacketWriter Name) : Prop where
  names : (w.writePending.items.map Prod.fst).Nodup
  sockets : w.pendingSockets.Nodup
  cursor : ∀ k, w.writePending.current = some k → k ∈ w.writePending.items.map Prod.fst
  same : w.writes.map (·.socket) = w.pendingSockets
  total : ∀ pw ∈ w.writes, pw.total = pw.iovecs.flatten.length
  short : ∀ pw ∈ w.writes, pw.bytes < pw.iovecs.flatten.length
  watched : ∀ s ∈ w.pendingSockets, s ∈ w.pendingWset

variable {w w' w'' : PacketWriter Name} {s t : CInt} {pw : PendingWrites} {room : Room}

/-- Nothing is pending at first. -/
theorem ok_initial : (initial : PacketWriter Name).Ok :=
  ⟨List.nodup_nil, List.nodup_nil, nofun, rfl, nofun, nofun, nofun⟩

/-- What is found for a socket is pending, and its own. -/
theorem mem_of_getWrite (h : w.getWrite s = some pw) : pw ∈ w.writes ∧ pw.socket = s := by
  have hsocket := List.find?_some h
  exact ⟨List.mem_of_find?_eq_some h, of_decide_eq_true hsocket⟩

/-- Nothing is found exactly if no write is about the socket. -/
theorem getWrite_eq_none : w.getWrite s = none ↔ s ∉ w.writes.map (·.socket) := by
  rw [getWrite, List.find?_eq_none]
  simp

/-- Nothing is found exactly if nothing is pending for the socket. -/
theorem Ok.getWrite_eq_none (h : w.Ok) : w.getWrite s = none ↔ s ∉ w.pendingSockets := by
  rw [PacketWriter.getWrite_eq_none, h.same]

theorem rest_of_none (h : w.getWrite s = none) : w.rest s = [] := by
  rw [rest, h]

/-- What is missing is behind the bytes that were written. -/
theorem rest_of_getWrite (h : w.getWrite s = some pw) :
    w.rest s = pw.iovecs.flatten.drop pw.bytes := by
  rw [rest, h]

/-- Nothing is missing exactly when nothing is pending. -/
theorem Ok.rest_eq_nil (h : w.Ok) : w.rest s = [] ↔ s ∉ w.pendingSockets := by
  rw [← h.getWrite_eq_none]
  constructor
  · intro hrest
    rcases hpw : w.getWrite s with _ | pw
    · rfl
    · rw [rest_of_getWrite hpw, List.drop_eq_nil_iff] at hrest
      exact absurd (h.short pw (mem_of_getWrite hpw).1) (Nat.not_lt.mpr hrest)
  · exact rest_of_none

/-! ### Changing what is pending -/

/-- The number of bytes written is noted for one socket only. -/
theorem find?_setBytes (s : CInt) (bytes : ℕ) (pws : List PendingWrites) (t : CInt) :
    (setBytes s bytes pws).find? (fun pw => pw.socket = t) =
      (pws.find? fun pw => pw.socket = t).map fun pw => if t = s then { pw with bytes := bytes }
      else pw := by
  induction pws with
  | nil => rfl
  | cons pw pws ih =>
      rw [setBytes]
      by_cases hs : pw.socket = s
      · rw [if_pos hs, List.find?_cons, List.find?_cons]
        by_cases ht : pw.socket = t
        · have hts : t = s := ht.symm.trans hs
          simp [ht, hts]
        · have hts : t ≠ s := fun hts => ht (hs.trans hts.symm)
          simp [ht, hts]
      · rw [if_neg hs, List.find?_cons, List.find?_cons, ih]
        by_cases ht : pw.socket = t
        · have hts : t ≠ s := fun hts => hs (ht.trans hts)
          simp [ht, hts]
        · simp [ht]

/-- Noting it changes no socket. -/
theorem map_socket_setBytes (s : CInt) (bytes : ℕ) (pws : List PendingWrites) :
    (setBytes s bytes pws).map (·.socket) = pws.map (·.socket) := by
  induction pws with
  | nil => rfl
  | cons pw pws ih =>
      rw [setBytes]
      split
      · rfl
      · rw [List.map_cons, List.map_cons, ih]

/-- What is pending then was pending before, or is the write that it was noted for. -/
theorem mem_setBytes {bytes : ℕ} {pws : List PendingWrites} (h : pw ∈ setBytes s bytes pws) :
    pw ∈ pws ∨ ∃ pw' ∈ pws, pws.find? (fun pw => pw.socket = s) = some pw' ∧
      pw = { pw' with bytes := bytes } := by
  induction pws with
  | nil => cases h
  | cons p pws ih =>
      rw [setBytes] at h
      by_cases hs : p.socket = s
      · rw [if_pos hs] at h
        rcases List.mem_cons.mp h with rfl | h
        · exact .inr ⟨p, List.mem_cons_self, by simp [hs], rfl⟩
        · exact .inl (List.mem_cons_of_mem _ h)
      · rw [if_neg hs] at h
        rcases List.mem_cons.mp h with rfl | h
        · exact .inl List.mem_cons_self
        · rcases ih h with h | ⟨pw', hpw', hfind, hpw⟩
          · exact .inl (List.mem_cons_of_mem _ h)
          · exact .inr ⟨pw', List.mem_cons_of_mem _ hpw', by simp [hs, hfind], hpw⟩

/-! ## Buffers -/

/-- Where nothing was written, all the buffers are left. -/
theorem restIovecs_of_le {bytes cur : ℕ} {iovecs : List (List UInt8)} (h : bytes ≤ cur) :
    restIovecs bytes cur iovecs = iovecs := by
  induction iovecs generalizing cur with
  | nil => rfl
  | cons v vs ih => rw [restIovecs, if_pos h, ih (Nat.le_add_right_of_le h)]

/-- What the loop takes is the front of what was not written yet. -/
theorem flatten_restIovecs {bytes cur : ℕ} {iovecs : List (List UInt8)} (h : cur ≤ bytes) :
    (restIovecs bytes cur iovecs).flatten <+: iovecs.flatten.drop (bytes - cur) := by
  induction iovecs generalizing cur with
  | nil => exact List.nil_prefix
  | cons v vs ih =>
      rw [restIovecs]
      by_cases hle : bytes ≤ cur
      · rw [if_pos hle, restIovecs_of_le (Nat.le_add_right_of_le hle), Nat.sub_eq_zero_of_le hle]
        exact List.prefix_rfl
      · rw [if_neg hle]
        by_cases hlt : bytes < cur + v.length
        · rw [if_pos hlt, List.flatten_singleton, List.flatten_cons,
            List.drop_append_of_le_length (by omega)]
          exact List.prefix_append _ _
        · have hdrop : (v :: vs).flatten.drop (bytes - cur) =
              vs.flatten.drop (bytes - (cur + v.length)) := by
            rw [List.flatten_cons, List.drop_append, List.drop_eq_nil_of_le (by omega),
              List.nil_append]
            congr 1
            omega
          rw [if_neg hlt, hdrop]
          exact ih (by omega)

/-! ## Questions and copies -/

/-- Only the cursor of the list, and the copies that are kept, may be others. -/
structure SameWrites (w w' : PacketWriter Name) : Prop where
  writes : w'.writes = w.writes
  items : w'.writePending.items = w.writePending.items
  cursor : (∀ k, w.writePending.current = some k → k ∈ w.writePending.items.map Prod.fst) →
    ∀ k, w'.writePending.current = some k → k ∈ w.writePending.items.map Prod.fst
  pendingWset : w'.pendingWset = w.pendingWset
  taken : w'.taken = w.taken

theorem SameWrites.refl (w : PacketWriter Name) : SameWrites w w := ⟨rfl, rfl, id, rfl, rfl⟩

/-- One change of the cursor after the other. -/
theorem SameWrites.trans (h : SameWrites w w') (h' : SameWrites w' w'') : SameWrites w w'' where
  writes := h'.writes.trans h.writes
  items := h'.items.trans h.items
  cursor := fun hc => by
    rw [← h.items] at hc ⊢
    exact h'.cursor (by rw [h.items] at hc ⊢; exact h.cursor hc)
  pendingWset := h'.pendingWset.trans h.pendingWset
  taken := h'.taken.trans h.taken

/-- Where only the cursor moves, the two lists still agree. -/
theorem SameWrites.ok (h : SameWrites w w') (hw : w.Ok) : w'.Ok where
  names := by rw [h.items]; exact hw.names
  sockets := by rw [pendingSockets, h.items]; exact hw.sockets
  cursor := by rw [h.items]; exact h.cursor hw.cursor
  same := by rw [h.writes, pendingSockets, h.items]; exact hw.same
  total := by rw [h.writes]; exact hw.total
  short := by rw [h.writes]; exact hw.short
  watched := by rw [pendingSockets, h.items, h.pendingWset]; exact hw.watched

/-- Asking whether output is pending moves the cursor only. -/
theorem sameWrites_noPendingWrites [DecidableEq Name] (w : PacketWriter Name) (s : CInt) :
    SameWrites w (w.noPendingWrites s).2 where
  writes := rfl
  items := CursorList.find_items
  cursor := fun hc _ hk => CursorList.current_find_mem hc hk
  pendingWset := rfl
  taken := rfl

/-- The answer to the question whether output is pending. -/
theorem noPendingWrites_eq [DecidableEq Name] (w : PacketWriter Name) (s : CInt) :
    (w.noPendingWrites s).1 = true ↔ s ∉ w.pendingSockets := by
  rw [noPendingWrites, Option.isNone_iff_eq_none, ← Option.not_isSome_iff_eq_none,
    CursorList.isSome_find]
  simp [pendingSockets]

/-- Looking through the sockets moves the cursor only. -/
theorem sameWrites_checkPendingWritesLoop [DecidableEq Name] (sockets : List CInt)
    (w : PacketWriter Name) :
    SameWrites w (checkPendingWritesLoop sockets w) := by
  induction sockets generalizing w with
  | nil => exact ⟨rfl, rfl, id, rfl, rfl⟩
  | cons s sockets ih =>
      have hrest := (sameWrites_noPendingWrites w s).trans (ih (w.noPendingWrites s).2)
      rw [checkPendingWritesLoop]
      dsimp only
      split
      · exact hrest
      · exact ⟨hrest.writes, hrest.items, hrest.cursor, hrest.pendingWset, hrest.taken⟩

/-- `Socket_checkPendingWrites` moves the cursor only. -/
theorem sameWrites_checkPendingWrites [DecidableEq Name] (w : PacketWriter Name) :
    SameWrites w w.checkPendingWrites :=
  sameWrites_checkPendingWritesLoop _ _

/-! ## Writing -/

/-- The bytes that a call has accepted. -/
def accepted (bufs : List (List UInt8)) : WriteResult → List UInt8
  | .complete | .interrupted => bufs.flatten
  | .error | .memoryError => []

/-- There is memory for what is interrupted, and the name of an element is not in use. -/
def MallocSucceeds (w : PacketWriter Name) : Event Name → Prop
  | .send _ _ _ _ memory => memory.sockmem = true ∧ memory.pending = true ∧
      memory.element.isSome = true ∧
      ∀ name ∈ memory.element, name ∉ w.writePending.items.map Prod.fst
  | _ => True

instance [DecidableEq Name] (w : PacketWriter Name) :
    ∀ e : Event Name, Decidable (w.MallocSucceeds e)
  | .send _ _ _ _ memory =>
    inferInstanceAs (Decidable (memory.sockmem = true ∧ memory.pending = true ∧
      memory.element.isSome = true ∧
      ∀ name ∈ memory.element, name ∉ w.writePending.items.map Prod.fst))
  | .connect _ | .noPendingWrites _ | .continueWrites _ _ | .close _ => .isTrue trivial

/-- What writing does to the connection of one socket: it takes more, and nothing is lost but the
bytes `lost` that were pending. -/
structure Flow (w w' : PacketWriter Name) (s : CInt) (added lost : List UInt8) : Prop where
  taken : w.taken s <+: w'.taken s
  stream : w'.stream s ++ lost = w.stream s ++ added

/-- A connection that is as it was. -/
theorem Flow.of_same (htaken : w'.taken s = w.taken s) (hwrite : w'.getWrite s = w.getWrite s) :
    Flow w w' s [] [] where
  taken := htaken ▸ List.prefix_rfl
  stream := by rw [PacketWriter.stream, PacketWriter.stream, rest, rest, htaken, hwrite]

/-- Where only the cursor moves, the connections are as they were. -/
theorem SameWrites.flow (h : SameWrites w w') (s : CInt) : Flow w w' s [] [] :=
  .of_same (by rw [h.taken]) (by rw [getWrite, h.writes]; rfl)

/-- Nothing is lost first. -/
theorem Flow.trans {added added' lost : List UInt8} (h : Flow w w' s added [])
    (h' : Flow w' w'' s added' lost) :
    Flow w w'' s (added ++ added') lost where
  taken := h.taken.trans h'.taken
  stream := by
    have hfirst := h.stream
    rw [List.append_nil] at hfirst
    rw [h'.stream, hfirst, List.append_assoc]

/-- The writer when `bytes` were taken. -/
def take (w : PacketWriter Name) (s : CInt) (bytes : List UInt8) : PacketWriter Name :=
  { w with taken := fun t => if t = s then w.taken t ++ bytes else w.taken t }

/-- `writev` fails, or takes a front of the bytes. -/
theorem writev_eq (w : PacketWriter Name) (s : CInt) (iovecs : List (List UInt8)) (room : Room) :
    w.writev s iovecs room = (none, w) ∨
      ∃ n ≤ iovecs.flatten.length, w.writev s iovecs room =
      (some n, w.take s (iovecs.flatten.take n)) := by
  rcases room with n | _ | _
  · refine .inr ⟨min n iovecs.flatten.length, Nat.min_le_right _ _, ?_⟩
    rw [writev, take, ← List.take_eq_take_min]
  · refine .inr ⟨0, Nat.zero_le _, ?_⟩
    have hsame : w.take s [] = w := by
      rw [take]
      congr 1
      funext t
      simp
    rw [List.take_zero, hsame]
    rfl
  · exact .inl rfl

theorem getWrite_take (bytes : List UInt8) : (w.take s bytes).getWrite t = w.getWrite t := rfl

/-- The other connections take nothing. -/
theorem taken_take_of_ne (ht : t ≠ s) (bytes : List UInt8) : (w.take s bytes).taken t = w.taken t :=
  if_neg ht

theorem taken_take_self (bytes : List UInt8) : (w.take s bytes).taken s = w.taken s ++ bytes :=
  if_pos rfl

/-- The other connections are as they were. -/
theorem flow_take_of_ne (ht : t ≠ s) (bytes : List UInt8) : Flow w (w.take s bytes) t [] [] :=
  .of_same (taken_take_of_ne ht _) (getWrite_take _)

/-- A packet that is taken as a whole. -/
theorem flow_take (hnone : w.getWrite s = none) (bytes : List UInt8) :
    Flow w (w.take s bytes) s bytes [] where
  taken := by
    rw [taken_take_self]
    exact List.prefix_append _ _
  stream := by
    have hnone' : (w.take s bytes).getWrite s = none := hnone
    rw [stream, stream, rest_of_none hnone, rest_of_none hnone', taken_take_self]
    simp

/-- What a connection takes does not concern the lists. -/
theorem Ok.take (h : w.Ok) (s : CInt) (bytes : List UInt8) : (w.take s bytes).Ok :=
  ⟨h.names, h.sockets, h.cursor, h.same, h.total, h.short, h.watched⟩

/-- The writer when a write was interrupted. -/
def interrupted (w : PacketWriter Name) (name : Name) (pw : PendingWrites) : PacketWriter Name :=
  { w with
    writes := w.writes ++ [pw]
    writePending := w.writePending.append name pw.socket
    pendingWset := pw.socket :: w.pendingWset }

/-- The interrupted write is found for its socket. -/
theorem getWrite_interrupted (name : Name) : (w.interrupted name pw).getWrite t =
    (w.getWrite t).or (if pw.socket = t then some pw else none) := by
  rw [getWrite, interrupted, List.find?_append, List.find?_singleton]
  simp only [decide_eq_true_eq]
  rfl

/-- An interrupted write does not concern the other connections. -/
theorem flow_interrupted_of_ne {name : Name} (ht : t ≠ pw.socket) :
    Flow w (w.interrupted name pw) t [] [] := by
  refine .of_same rfl ?_
  rw [getWrite_interrupted, if_neg (Ne.symm ht), Option.or_none]

/-- A packet of which the front is taken. -/
theorem flow_interrupted {name : Name} (hnone : w.getWrite pw.socket = none) :
    Flow w ((w.take pw.socket (pw.iovecs.flatten.take pw.bytes)).interrupted name pw) pw.socket
      pw.iovecs.flatten [] := by
  have hgot : ((w.take pw.socket (pw.iovecs.flatten.take pw.bytes)).interrupted name pw).getWrite
      pw.socket = some pw := by
    rw [getWrite_interrupted, getWrite_take, hnone]
    simp
  have htaken : ((w.take pw.socket (pw.iovecs.flatten.take pw.bytes)).interrupted name pw).taken
      pw.socket =
      w.taken pw.socket ++ pw.iovecs.flatten.take pw.bytes := taken_take_self _
  refine ⟨?_, ?_⟩
  · rw [htaken]
    exact List.prefix_append _ _
  · rw [stream, stream, rest_of_none hnone, rest_of_getWrite hgot, htaken]
    simp

/-- A write that is interrupted is pending for a socket that had no pending output. -/
theorem Ok.interrupted (h : w.Ok) {name : Name} (hname : name ∉ w.writePending.items.map Prod.fst)
    (hs : pw.socket ∉ w.pendingSockets) (htotal : pw.total = pw.iovecs.flatten.length)
    (hshort : pw.bytes < pw.iovecs.flatten.length) : (w.interrupted name pw).Ok := by
  have hitems : (w.interrupted name pw).writePending.items =
      w.writePending.items ++ [(name, pw.socket)] := rfl
  have hsockets : (w.interrupted name pw).pendingSockets = w.pendingSockets ++ [pw.socket] := by
    rw [pendingSockets, hitems, List.map_append]
    rfl
  refine ⟨?_, ?_, fun k hk => ?_, ?_, fun q hq => ?_, fun q hq => ?_, fun t ht => ?_⟩
  · rw [hitems, List.map_append, List.map_singleton, ← List.concat_eq_append]
    exact h.names.concat hname
  · rw [hsockets, ← List.concat_eq_append]
    exact h.sockets.concat hs
  · rw [hitems, List.map_append]
    exact List.mem_append_left _ (h.cursor k hk)
  · rw [hsockets, ← h.same]
    exact List.map_append
  · rcases List.mem_append.mp hq with hq | hq
    · exact h.total q hq
    · rw [List.mem_singleton.mp hq]
      exact htotal
  · rcases List.mem_append.mp hq with hq | hq
    · exact h.short q hq
    · rw [List.mem_singleton.mp hq]
      exact hshort
  · rw [hsockets, List.mem_append, List.mem_singleton] at ht
    rcases ht with ht | rfl
    · exact List.mem_cons_of_mem _ (h.watched t ht)
    · exact List.mem_cons_self

/-- **One call.**  The packet is accepted as a whole, or not at all, and the others do not
notice. -/
theorem putdatas_spec [DecidableEq Name] (h : w.Ok) {bufs : List (List UInt8)}
    {memory : WriteMemory Name} {qos0 : Bool}
    (hmalloc : w.MallocSucceeds (.send s qos0 bufs room memory)) :
    ∃ rc w', w.putdatas s bufs room memory = (rc, w') ∧ w'.Ok ∧ Flow w w' s (accepted bufs rc) [] ∧
      ∀ t ≠ s, Flow w w' t [] [] := by
  obtain ⟨hsockmem, hpending, helement, hfresh⟩ := hmalloc
  obtain ⟨name, hname⟩ := Option.isSome_iff_exists.mp helement
  have hsame := sameWrites_noPendingWrites w s
  have hok := hsame.ok h
  rw [putdatas]
  dsimp only
  split
  -- output is pending, and the packet is refused
  · exact ⟨_, _, rfl, hok, hsame.flow s, fun t _ => hsame.flow t⟩
  · rename_i hfree
    rw [Bool.not_eq_true, Bool.not_eq_false, noPendingWrites_eq] at hfree
    rcases writev_eq (w.noPendingWrites s).2 s bufs room with hwritev | ⟨n, hn, hwritev⟩
    · rw [hwritev]
      exact ⟨_, _, rfl, hok, hsame.flow s, fun t _ => hsame.flow t⟩
    · have hnone : (w.noPendingWrites s).2.getWrite s = none := by
        rw [hok.getWrite_eq_none, pendingSockets, hsame.items]
        exact hfree
      have htotal : (bufs.map List.length).sum = bufs.flatten.length := List.length_flatten.symm
      have hother : ∀ t ≠ s,
          Flow w ((w.noPendingWrites s).2.take s (bufs.flatten.take n)) t [] [] :=
        fun t ht => (hsame.flow t).trans (flow_take_of_ne ht _)
      rw [hwritev, htotal]
      dsimp only
      -- the socket has taken the packet, or only the front of it
      by_cases hall : n = bufs.flatten.length
      · refine ⟨.complete, _, if_pos hall, hok.take s _, ?_, hother⟩
        rw [hall, List.take_length]
        exact (hsame.flow s).trans (flow_take hnone _)
      · have hshort : n < bufs.flatten.length := Nat.lt_of_le_of_ne hn hall
        have hname' : name ∉ (w.noPendingWrites s).2.writePending.items.map Prod.fst := by
          rw [hsame.items]
          exact hfresh name hname
        have hfree' : s ∉ (w.noPendingWrites s).2.pendingSockets := by
          rw [pendingSockets, hsame.items]
          exact hfree
        rw [if_neg hall, hname]
        refine ⟨.interrupted,
          ((w.noPendingWrites s).2.take s (bufs.flatten.take n)).interrupted name
          ⟨s, n, bufs.flatten.length, bufs⟩, ?_,
            (hok.take s _).interrupted hname' hfree' rfl hshort,
          (hsame.flow s).trans (flow_interrupted hnone),
            fun t ht => (hother t ht).trans (flow_interrupted_of_ne ht)⟩
        rw [hpending]
        rfl

/-! ## Going on -/

/-- The lists still agree while the write is not complete. -/
theorem Ok.setBytes (h : w.Ok) (hpw : w.getWrite s = some pw) {bytes : ℕ}
    (hshort : bytes < pw.iovecs.flatten.length) :
    PacketWriter.Ok { w with writes := setBytes s bytes w.writes } := by
  refine ⟨h.names, h.sockets, h.cursor, ?_, fun q hq => ?_, fun q hq => ?_, h.watched⟩
  · rw [map_socket_setBytes]
    exact h.same
  · rcases mem_setBytes hq with hq | ⟨q', hq', -, rfl⟩
    · exact h.total q hq
    · exact h.total q' hq'
  · rcases mem_setBytes hq with hq | ⟨q', hq', hfind, rfl⟩
    · exact h.short q hq
    · have hsame : some q' = some pw := hfind.symm.trans hpw
      cases hsame
      exact hshort

/-- The writer when more of a packet was written. -/
def advance (w : PacketWriter Name) (s : CInt) (bytes : List UInt8) (n : ℕ) : PacketWriter Name :=
  { w.take s bytes with writes := PacketWriter.setBytes s n w.writes }

theorem getWrite_advance (bytes : List UInt8) (n : ℕ) : (w.advance s bytes n).getWrite t =
    (w.getWrite t).map fun pw => if t = s then { pw with bytes := n } else pw :=
  find?_setBytes s n w.writes t

/-- What holds while the write to one socket is settled. -/
structure OkBut (s : CInt) (w : PacketWriter Name) : Prop where
  names : (w.writePending.items.map Prod.fst).Nodup
  sockets : w.pendingSockets.Nodup
  cursor : ∀ k, w.writePending.current = some k → k ∈ w.writePending.items.map Prod.fst
  same : w.writes.map (·.socket) = w.pendingSockets
  total : ∀ pw ∈ w.writes, pw.socket ≠ s → pw.total = pw.iovecs.flatten.length
  short : ∀ pw ∈ w.writes, pw.socket ≠ s → pw.bytes < pw.iovecs.flatten.length
  watched : ∀ t ∈ w.pendingSockets, t ∈ w.pendingWset

theorem Ok.but (h : w.Ok) (s : CInt) : OkBut s w :=
  ⟨h.names, h.sockets, h.cursor, h.same, fun q hq _ => h.total q hq, fun q hq _ => h.short q hq,
    h.watched⟩

/-- The lists agree but for the write that goes on. -/
theorem Ok.advance_but (h : w.Ok) (s : CInt) (bytes : List UInt8) (n : ℕ) :
    OkBut s (w.advance s bytes n) := by
  have hold : ∀ q ∈ PacketWriter.setBytes s n w.writes, q.socket ≠ s → q ∈ w.writes := by
    intro q hq hne
    rcases mem_setBytes hq with hq | ⟨q', -, hfind, rfl⟩
    · exact hq
    · have hsocket := List.find?_some hfind
      exact absurd (of_decide_eq_true hsocket) hne
  refine ⟨h.names, h.sockets, h.cursor, ?_, fun q hq hne => h.total q (hold q hq hne),
    fun q hq hne => h.short q (hold q hq hne), h.watched⟩
  exact (map_socket_setBytes s n w.writes).trans h.same

/-- What going on with a write leaves: an error, the end of the packet, or a packet of which more
was written. -/
inductive Continued (w w' : PacketWriter Name) (s : CInt) : ℤ → Prop
  | failed (same : w' = w) : Continued w w' s (-1)
  | complete (but : OkBut s w') (taken : w'.taken s = w.stream s) : Continued w w' s 1
  | more (ok : w'.Ok) (flow : Flow w w' s [] []) : Continued w w' s 0

/-- **Going on with a write.**  There is something to go on with, and only this socket is
concerned. -/
theorem continueWrite_spec (h : w.Ok) (hs : s ∈ w.pendingSockets) (room : Room) :
    ∃ rc w', w.continueWrite s room = .ok (rc, w') ∧ Continued w w' s rc ∧
      w'.writePending = w.writePending ∧
      w'.pendingWset = w.pendingWset ∧ ∀ t ≠ s, w'.taken t = w.taken t ∧
      w'.getWrite t = w.getWrite t := by
  have hsome : w.getWrite s ≠ none := mt h.getWrite_eq_none.mp (not_not_intro hs)
  obtain ⟨pw, hpw⟩ := Option.ne_none_iff_exists'.mp hsome
  have hmem := (mem_of_getWrite hpw).1
  rw [continueWrite, hpw]
  dsimp only
  rcases writev_eq w s (restIovecs pw.bytes 0 pw.iovecs) room with hwritev | ⟨n, hn, hwritev⟩
  · rw [hwritev]
    exact ⟨_, _, rfl, .failed rfl, rfl, rfl, fun t _ => ⟨rfl, rfl⟩⟩
  · rw [hwritev]
    dsimp only
    have hfront : (restIovecs pw.bytes 0 pw.iovecs).flatten <+:
        pw.iovecs.flatten.drop (pw.bytes - 0) :=
      flatten_restIovecs (Nat.zero_le _)
    obtain ⟨tail, htail⟩ := hfront
    rw [Nat.sub_zero] at htail
    have htake : (restIovecs pw.bytes 0 pw.iovecs).flatten.take n =
        (pw.iovecs.flatten.drop pw.bytes).take n := by
      rw [← htail, List.take_append_of_le_length hn]
    have hlength : pw.bytes + n ≤ pw.iovecs.flatten.length := by
      have hsum := congrArg List.length htail
      have hshort := h.short pw hmem
      rw [List.length_append, List.length_drop] at hsum
      omega
    -- a buffer that was written in part is the last one that is handed over
    rw [htake]
    generalize hbytes : (pw.iovecs.flatten.drop pw.bytes).take n = bytes
    have hothers : ∀ t ≠ s, (w.advance s bytes (pw.bytes + n)).taken t = w.taken t ∧
        (w.advance s bytes (pw.bytes + n)).getWrite t = w.getWrite t := by
      intro t ht
      refine ⟨taken_take_of_ne ht _, ?_⟩
      rw [getWrite_advance]
      simp only [if_neg ht, Option.map_id']
    have htaken : (w.advance s bytes (pw.bytes + n)).taken s = w.taken s ++ bytes :=
      taken_take_self _
    have htotal := h.total pw hmem
    by_cases hall : pw.bytes + n = pw.total
    · rw [if_pos hall]
      refine ⟨1, w.advance s bytes (pw.bytes + n), rfl, .complete (h.advance_but s bytes _) ?_, rfl,
        rfl, hothers⟩
      rw [htaken, stream, rest_of_getWrite hpw, ← hbytes, List.take_of_length_le]
      rw [List.length_drop]
      omega
    · rw [if_neg hall]
      have hmore : pw.bytes + n < pw.iovecs.flatten.length := by omega
      have hpw' : (w.advance s bytes (pw.bytes + n)).getWrite s =
          some { pw with bytes := pw.bytes + n } := by
        rw [getWrite_advance, hpw]
        simp
      have hok := (h.take s bytes).setBytes hpw hmore
      refine ⟨0, w.advance s bytes (pw.bytes + n), rfl, .more hok ⟨?_, ?_⟩, rfl, rfl, hothers⟩
      · rw [htaken]
        exact List.prefix_append _ _
      · rw [stream, stream, rest_of_getWrite hpw', rest_of_getWrite hpw, htaken, ← hbytes,
          List.append_nil,
          List.append_nil, List.append_assoc, ← List.drop_drop, List.take_append_drop]

/-! ## Settling -/

variable [DecidableEq Name]

/-- The writer when nothing is pending for a socket any more. -/
def settle (w : PacketWriter Name) (s : CInt) (p : Name × CInt → Bool) : PacketWriter Name :=
  { (w.writeComplete s).clear s with writePending := (w.writePending.remove p).2 }

/-- The sockets without the one whose write is settled. -/
theorem map_socket_eraseP (s : CInt) (pws : List PendingWrites) :
    (pws.eraseP fun pw => pw.socket = s).map (·.socket) = (pws.map (·.socket)).erase s := by
  induction pws with
  | nil => rfl
  | cons pw pws ih =>
      by_cases hs : pw.socket = s
      · simp [hs]
      · simp [hs, ih]

/-- The writes to the other sockets are found as before. -/
theorem find?_eraseP_of_ne (ht : t ≠ s) (pws : List PendingWrites) :
    (pws.eraseP fun pw => pw.socket = s).find? (fun pw => pw.socket = t) =
      pws.find? fun pw => pw.socket = t := by
  induction pws with
  | nil => rfl
  | cons pw pws ih =>
      by_cases hs : pw.socket = s
      · simp [hs, Ne.symm ht]
      · rw [List.eraseP_cons_of_neg (by simpa using hs), List.find?_cons, List.find?_cons, ih]

/-- **A write is settled**; the others are as they were. -/
theorem OkBut.settle (h : OkBut s w) {k : Name} {xs ys : List (Name × CInt)}
    (hitems : w.writePending.items = xs ++ (k, s) :: ys) {p : Name × CInt → Bool}
    (hp : p (k, s) = true)
    (honly : ∀ y ∈ w.writePending.items, p y = true → y = (k, s)) :
    (w.settle s p).Ok ∧ (w.settle s p).getWrite s = none ∧
      (w.settle s p).writePending.items = xs ++ ys := by
  have hremove := CursorList.remove_split h.names (CursorList.find_eq_some hitems hp honly) hitems
  have hlist : (w.settle s p).writePending = ⟨xs ++ ys,
      if w.writePending.current = some k then CursorList.firstName ys
      else w.writePending.current⟩ :=
    congrArg Prod.snd hremove
  have hsockets := h.sockets
  have hnames := h.names
  rw [pendingSockets, hitems] at hsockets
  rw [hitems] at hnames
  have hsub : (xs ++ ys).Sublist (xs ++ (k, s) :: ys) :=
    List.Sublist.append_left (List.sublist_cons_self _ _) _
  -- no other element is about the socket
  have hgone : s ∉ (xs ++ ys).map Prod.snd := by
    have hperm : ((xs ++ (k, s) :: ys).map Prod.snd).Perm (s :: (xs ++ ys).map Prod.snd) :=
      List.perm_middle.map Prod.snd
    exact (List.nodup_cons.mp (hperm.nodup_iff.mp hsockets)).1
  have hwrites : (w.settle s p).writes.map (·.socket) = (xs ++ ys).map Prod.snd := by
    refine (map_socket_eraseP s w.writes).trans ?_
    rw [h.same, pendingSockets, hitems, List.map_append, List.map_cons, List.map_append]
    rw [List.map_append, List.mem_append, not_or] at hgone
    rw [List.erase_append_right _ hgone.1, List.erase_cons_head]
  have hpending : (w.settle s p).pendingSockets = (xs ++ ys).map Prod.snd := by
    rw [pendingSockets, hlist]
  have hsocket : ∀ pw ∈ (w.settle s p).writes, pw ∈ w.writes ∧ pw.socket ≠ s := by
    intro pw hpw
    refine ⟨List.mem_of_mem_eraseP hpw, ?_⟩
    rintro rfl
    exact hgone (hwrites ▸ List.mem_map_of_mem hpw)
  refine ⟨⟨?_, ?_, fun k' hk => ?_, hwrites.trans hpending.symm, fun pw hpw => ?_, fun pw hpw => ?_,
    fun t ht => ?_⟩, ?_, by rw [hlist]⟩
  · rw [hlist]
    exact hnames.sublist (hsub.map _)
  · rw [hpending]
    exact hsockets.sublist (hsub.map _)
  · rw [hlist] at hk ⊢
    exact CursorList.current_remove_mem h.cursor hitems hk
  · exact h.total pw (hsocket pw hpw).1 (hsocket pw hpw).2
  · exact h.short pw (hsocket pw hpw).1 (hsocket pw hpw).2
  · rw [hpending] at ht
    have hne : t ≠ s := by
      rintro rfl
      exact hgone ht
    refine List.mem_filter.mpr ⟨h.watched t ?_, decide_eq_true hne⟩
    rw [pendingSockets, hitems]
    exact (hsub.map Prod.snd).subset ht
  · rw [getWrite_eq_none, hwrites]
    exact hgone

/-- Settling a write does not concern the other connections. -/
theorem flow_settle (ht : t ≠ s) (p : Name × CInt → Bool) : Flow w (w.settle s p) t [] [] :=
  .of_same rfl (find?_eraseP_of_ne ht _)

/-- Closing a socket with nothing pending changes nothing of the lists. -/
theorem Ok.close_of_free (h : w.Ok) (hs : s ∉ w.pendingSockets) :
    (w.close s).writePending = w.writePending ∧ (w.close s).writes = w.writes := by
  have hfind : w.writePending.find (fun x => x.2 = s) = (none, w.writePending) := by
    refine CursorList.find_eq_none fun y hy => decide_eq_false ?_
    rintro rfl
    exact hs (List.mem_map_of_mem hy)
  refine ⟨?_, List.eraseP_of_forall_not fun q hq => ?_⟩
  · change (w.writePending.remove _).2 = _
    rw [CursorList.remove, hfind]
  · have hne : q.socket ≠ s := by
      rintro rfl
      exact hs (h.same ▸ List.mem_map_of_mem hq)
    simpa using hne

/-- A socket that is closed has nothing pending. -/
theorem close_spec (h : w.Ok) (s : CInt) :
    (w.close s).Ok ∧ (w.close s).getWrite s = none ∧ ∀ t ≠ s, Flow w (w.close s) t [] [] := by
  have hclose : w.close s = w.settle s fun x => x.2 = s := rfl
  by_cases hs : s ∈ w.pendingSockets
  · rw [hclose]
    obtain ⟨⟨k, s'⟩, hmem, rfl⟩ := List.mem_map.mp hs
    obtain ⟨xs, ys, hitems⟩ := List.append_of_mem hmem
    have honly : ∀ y ∈ w.writePending.items, decide (y.2 = s') = true → y = (k, s') :=
      fun y hy hsocket =>
      List.inj_on_of_nodup_map h.sockets hy hmem (of_decide_eq_true hsocket)
    obtain ⟨hok, hnone, -⟩ := (h.but s').settle hitems (decide_eq_true rfl) honly
    exact ⟨hok, hnone, fun t ht => flow_settle ht _⟩
  · obtain ⟨hlist, hwrites⟩ := h.close_of_free hs
    have hsockets : (w.close s).pendingSockets = w.pendingSockets := by
      rw [pendingSockets, hlist, pendingSockets]
    refine ⟨⟨?_, ?_, ?_, ?_, ?_, ?_, fun t ht => ?_⟩, ?_, fun t ht => hclose ▸ flow_settle ht _⟩
    · rw [hlist]
      exact h.names
    · rw [hsockets]
      exact h.sockets
    · rw [hlist]
      exact h.cursor
    · rw [hwrites, hsockets]
      exact h.same
    · rw [hwrites]
      exact h.total
    · rw [hwrites]
      exact h.short
    · rw [hsockets] at ht
      refine List.mem_filter.mpr ⟨h.watched t ht, decide_eq_true ?_⟩
      rintro rfl
      exact hs ht
    · rw [getWrite, hwrites]
      exact h.getWrite_eq_none.mpr hs

/-! ## Rounds -/

/-- What a round does to one connection: bytes are lost exactly if a write to it has failed. -/
def Round (w w' : PacketWriter Name) (out : List (CInt × ℤ)) (s : CInt) : Prop :=
  ∃ lost, Flow w w' s [] lost ∧ (lost = [] ↔ (s, -1) ∉ out)

omit [DecidableEq Name] in
/-- One turn after the other. -/
theorem Round.trans {out out' : List (CInt × ℤ)} (h : Round w w' out s) (h' : Round w' w'' out' s) :
    Round w w'' (out ++ out') s := by
  obtain ⟨lost, hflow, hlost⟩ := h
  obtain ⟨lost', hflow', hlost'⟩ := h'
  refine ⟨lost' ++ lost, ⟨hflow.taken.trans hflow'.taken, ?_⟩, ?_⟩
  · have hfirst := hflow.stream
    have hthen := hflow'.stream
    rw [List.append_nil] at hfirst hthen
    rw [List.append_nil, ← List.append_assoc, hthen, hfirst]
  · rw [List.append_eq_nil_iff, hlost, hlost', List.mem_append, not_or, and_comm]

omit [DecidableEq Name] in
/-- A turn that loses nothing. -/
theorem Flow.round (h : Flow w w' s [] []) {out : List (CInt × ℤ)} (hout : (s, -1) ∉ out) :
    Round w w' out s :=
  ⟨[], h, ⟨fun _ => hout, fun _ => rfl⟩⟩

/-- **One turn.**  The write of the socket whose turn it is goes on, or is settled. -/
theorem turn_spec (h : w.Ok) {k : Name} {xs ys : List (Name × CInt)}
    (hitems : w.writePending.items = xs ++ (k, s) :: ys)
    (room : Room) :
    ∃ rc w', w.continueWrite s room = .ok (rc, w') ∧
      ((rc = 0 ∧ w'.Ok ∧ w'.writePending = w.writePending ∧ ∀ t, Round w w' [] t) ∨
        (rc ≠ 0 ∧ (w'.settle s fun x => x.1 = k).Ok ∧
          (w'.settle s fun x => x.1 = k).writePending.items = xs ++ ys ∧
          ∀ t, Round w (w'.settle s fun x => x.1 = k) [(s, rc)] t)) := by
  have hs : s ∈ w.pendingSockets := by simp [pendingSockets, hitems]
  obtain ⟨rc, w', hcontinue, hcont, hlist, hwset, hothers⟩ := continueWrite_spec h hs room
  refine ⟨rc, w', hcontinue, ?_⟩
  have hmem : (k, s) ∈ w.writePending.items := by simp [hitems]
  have honly : ∀ y ∈ w'.writePending.items, decide (y.1 = k) = true → y = (k, s) := by
    rw [hlist]
    exact fun y hy hname => List.inj_on_of_nodup_map h.names hy hmem (of_decide_eq_true hname)
  have hother : ∀ t ≠ s, Flow w (w'.settle s fun x => x.1 = k) t [] [] := fun t ht =>
    (Flow.of_same (hothers t ht).1 (hothers t ht).2).trans (flow_settle ht _)
  have hitems' : w'.writePending.items = xs ++ (k, s) :: ys := hlist ▸ hitems
  cases hcont with
  | more hok hflow =>
      refine .inl ⟨rfl, hok, hlist, fun t => ?_⟩
      by_cases ht : t = s
      · rw [ht]
        exact hflow.round List.not_mem_nil
      · exact (Flow.of_same (hothers t ht).1 (hothers t ht).2).round List.not_mem_nil
  -- the element is gone, and what was pending has been taken
  | complete hbut htaken =>
      obtain ⟨hok, hnone, hrest⟩ := hbut.settle hitems' (decide_eq_true rfl) honly
      refine .inr ⟨by decide, hok, hrest, fun t => ?_⟩
      by_cases ht : t = s
      · subst ht
        refine Flow.round ⟨?_, ?_⟩ (by simp)
        · rw [show (w'.settle t _).taken t = w'.taken t from rfl, htaken]
          exact List.prefix_append _ _
        · rw [stream, rest_of_none hnone, show (w'.settle t _).taken t = w'.taken t from rfl,
            htaken]
          simp
      · exact (hother t ht).round (by simp [ht])
  -- the element is gone too, and what was pending is lost
  | failed hsame =>
      subst hsame
      obtain ⟨hok, hnone, hrest⟩ := (h.but s).settle hitems' (decide_eq_true rfl) honly
      refine .inr ⟨by decide, hok, hrest, fun t => ?_⟩
      by_cases ht : t = s
      · subst ht
        refine ⟨w'.rest t, ⟨List.prefix_rfl, ?_⟩, ?_⟩
        · rw [stream, rest_of_none hnone, List.append_nil, List.append_nil]
          rfl
        · rw [h.rest_eq_nil]
          simp [hs]
      · exact (hother t ht).round (by simp [ht])

omit [DecidableEq Name] in
/-- The cursor of a list is where a part of it begins. -/
theorem exists_firstName (h : w.Ok) : ∃ xs ys, w.writePending.items = xs ++ ys ∧
    w.writePending.current = CursorList.firstName ys := by
  rcases hcurrent : w.writePending.current with _ | k
  · exact ⟨w.writePending.items, [], (List.append_nil _).symm, rfl⟩
  · obtain ⟨⟨k', s⟩, hmem, rfl⟩ := List.mem_map.mp (h.cursor k hcurrent)
    obtain ⟨xs, ys, hitems⟩ := List.append_of_mem hmem
    exact ⟨xs, (k', s) :: ys, hitems, rfl⟩

/-- **The loop ends**, wherever it goes on after a write is settled, and every element that it uses
is in the list. -/
theorem continueWritesLoop_spec {fuel : ℕ} {pwset : List CInt} (rooms : List Room)
    {xs ys : List (Name × CInt)}
    (h : w.Ok) (hitems : w.writePending.items = xs ++ ys)
    (hfuel : w.writePending.items.length * w.writePending.items.length + ys.length ≤ fuel) :
    ∃ out w', continueWritesLoop pwset fuel (CursorList.firstName ys) rooms w = .ok (out, w') ∧
      w'.Ok ∧
      ∀ t, Round w w' out t := by
  induction fuel generalizing w rooms xs ys with
  | zero =>
      have hys : ys = [] := List.length_eq_zero_iff.mp (by omega)
      rw [hys]
      exact ⟨[], w, rfl, h, fun t => (SameWrites.refl w |>.flow t).round List.not_mem_nil⟩
  | succ fuel ih =>
      rcases ys with _ | ⟨⟨k, s⟩, ys⟩
      · exact ⟨[], w, rfl, h, fun t => (SameWrites.refl w |>.flow t).round List.not_mem_nil⟩
      · have hnames := h.names
        rw [hitems, List.map_append, List.map_cons, List.nodup_append] at hnames
        have hk : k ∉ xs.map Prod.fst := fun hmem => hnames.2.2 k hmem k List.mem_cons_self rfl
        have hfind : w.writePending.items.find? (fun x => x.1 = k) = some (k, s) := by
          rw [hitems, List.find?_append, List.find?_eq_none.mpr, Option.none_or,
            List.find?_cons_of_pos (by simp)]
          intro x hx hname
          exact hk (of_decide_eq_true hname ▸ List.mem_map_of_mem hx)
        have hnext : CursorList.nextName k w.writePending.items = CursorList.firstName ys := by
          rw [hitems, CursorList.nextName_split hk rfl]
        have hitems' : w.writePending.items = (xs ++ [(k, s)]) ++ ys := by
          rw [hitems, List.append_assoc]; rfl
        rw [List.length_cons] at hfuel
        rw [show CursorList.firstName ((k, s) :: ys) = some k from rfl, continueWritesLoop, hfind]
        dsimp only
        by_cases hready : s ∈ pwset
        · obtain ⟨rc, w₁, hcontinue, hturn⟩ := turn_spec h hitems (rooms.headD .wouldBlock)
          rw [if_pos hready, hcontinue]
          rcases hturn with ⟨rfl, hok, hlist, hround⟩ | ⟨hrc, hok, hlist, hround⟩
          · obtain ⟨out, w', hloop, hok', hround'⟩ :=
              ih rooms.tail hok (by rw [hlist]; exact hitems')
              (by rw [hlist]; omega)
            refine ⟨out, w', ?_, hok', fun t => (hround t).trans (hround' t)⟩
            rw [← hlist] at hnext
            simp only [bind, Except.bind, ne_eq, not_true_eq_false, if_false, hnext]
            exact hloop
          · -- the loop goes on at the cursor, which may be in front of the element that is gone
            obtain ⟨xs', ys', hsplit, hcursor⟩ := exists_firstName hok
            have hsame := sameWrites_checkPendingWrites (w₁.settle s fun x => x.1 = k)
            have hlen : ys'.length ≤ (xs ++ ys).length := by
              rw [← hlist, hsplit, List.length_append]
              omega
            -- each write that is settled pays for one more walk over the list
            have hsquare : (xs ++ ys).length * (xs ++ ys).length + ys'.length ≤ fuel := by
              rw [hitems, List.length_append, List.length_cons] at hfuel
              rw [List.length_append] at hlen ⊢
              nlinarith
            obtain ⟨out, w', hloop, hok', hround'⟩ := ih rooms.tail (hsame.ok hok)
              (by rw [hsame.items]; exact hsplit) (by rw [hsame.items, hlist]; exact hsquare)
            refine ⟨(s, rc) :: out, w', ?_, hok', fun t => ?_⟩
            · simp only [bind, Except.bind, ne_eq, hrc, not_false_eq_true, if_true]
              rw [← hcursor] at hloop
              exact congrArg (fun r => Except.bind r fun v => .ok ((s, rc) :: v.1, v.2)) hloop
            · exact ((hround t).trans ((hsame.flow t).round List.not_mem_nil)).trans (hround' t)
        · rw [if_neg hready, hnext]
          exact ih rooms h hitems' (by omega)

/-- **One round** leaves the lists in agreement, and loses bytes only where a write failed. -/
theorem continueWrites_spec (h : w.Ok) (pwset : List CInt) (rooms : List Room) :
    ∃ out w', w.continueWrites pwset rooms = .ok (out, w') ∧ w'.Ok ∧ ∀ t, Round w w' out t :=
  continueWritesLoop_spec rooms h (List.nil_append _).symm (Nat.le_refl _)

/-! ## Runs -/

/-- The packets that were accepted for a socket. -/
def acceptedPackets (s : CInt) (out : List Observation) : List (List UInt8) :=
  out.filterMap fun
    | .sent t bufs .complete | .sent t bufs .interrupted => if t = s then some bufs.flatten
      else none
    | _ => none

/-- Going on with a write to the socket has failed. -/
def Fails (s : CInt) : Observation → Prop
  | .continued done => (s, -1) ∈ done
  | _ => False

instance (s : CInt) : DecidablePred (Fails s)
  | .continued done => inferInstanceAs (Decidable ((s, -1) ∈ done))
  | .none | .sent _ _ _ | .free _ _ => .isFalse id

/-- At some time, going on with a write to the socket has failed. -/
def Failed (s : CInt) (out : List Observation) : Prop := ∃ o ∈ out, Fails s o

instance (s : CInt) (out : List Observation) : Decidable (Failed s out) :=
  inferInstanceAs (Decidable (∃ o ∈ out, Fails s o))

/-- The event begins or ends a connection on the socket. -/
def OpensOrCloses (s : CInt) : Event Name → Prop
  | .connect t | .close t => t = s
  | _ => False

instance (s : CInt) : DecidablePred (OpensOrCloses s : Event Name → Prop)
  | .connect t | .close t => inferInstanceAs (Decidable (t = s))
  | .send _ _ _ _ _ | .noPendingWrites _ | .continueWrites _ _ => .isFalse id

/-- What events do to a connection: of what was there and what was accepted, what is now taken and
pending are a part in order, and all of it exactly if no write has failed. -/
structure Written (w w' : PacketWriter Name) (s : CInt) (out : List Observation) : Prop where
  taken : w.taken s <+: w'.taken s
  part : (w'.stream s).Sublist (w.stream s ++ (acceptedPackets s out).flatten)
  whole : w'.stream s = w.stream s ++ (acceptedPackets s out).flatten ↔ ¬ Failed s out

omit [DecidableEq Name] in
/-- What one event does to a connection. -/
theorem Flow.written {added lost : List UInt8} {out : List Observation} (h : Flow w w' s added lost)
    (hadded : (acceptedPackets s out).flatten = added) (hlost : lost = [] ↔ ¬ Failed s out) :
    Written w w' s out where
  taken := h.taken
  part := by
    rw [hadded, ← h.stream]
    exact List.sublist_append_left _ _
  whole := by
    rw [hadded, ← h.stream, ← hlost]
    exact ⟨fun heq => List.append_right_eq_self.mp heq.symm,
      fun hnil => by rw [hnil, List.append_nil]⟩

omit [DecidableEq Name] in
/-- One run after the other. -/
theorem Written.trans {out out' : List Observation} (h : Written w w' s out)
    (h' : Written w' w'' s out') :
    Written w w'' s (out ++ out') := by
  have hpackets : (acceptedPackets s (out ++ out')).flatten =
      (acceptedPackets s out).flatten ++ (acceptedPackets s out').flatten := by
    rw [acceptedPackets, List.filterMap_append, List.flatten_append]
    rfl
  have hfailed : ¬ Failed s (out ++ out') ↔ ¬ Failed s out ∧ ¬ Failed s out' := by
    rw [← not_or]
    refine not_congr ⟨?_, ?_⟩
    · rintro ⟨o, hmem, hfails⟩
      rcases List.mem_append.mp hmem with hmem | hmem
      · exact .inl ⟨o, hmem, hfails⟩
      · exact .inr ⟨o, hmem, hfails⟩
    · rintro (⟨o, hmem, hfails⟩ | ⟨o, hmem, hfails⟩)
      · exact ⟨o, List.mem_append_left _ hmem, hfails⟩
      · exact ⟨o, List.mem_append_right _ hmem, hfails⟩
  have hmid := h.part.append_right (acceptedPackets s out').flatten
  refine ⟨h.taken.trans h'.taken, ?_, ?_⟩
  · rw [hpackets, ← List.append_assoc]
    exact h'.part.trans hmid
  · rw [hpackets, ← List.append_assoc, hfailed, ← h.whole, ← h'.whole]
    constructor
    · intro heq
      -- nothing can be missing in between, because the end is as long as everything
      have hlast := h'.part.length_le
      have hfirst := h.part.length_le
      have hlength := congrArg List.length heq
      simp only [List.length_append] at hlast hfirst hlength
      have hmidEq : w'.stream s = w.stream s ++ (acceptedPackets s out).flatten :=
        h.part.eq_of_length (by rw [List.length_append]; omega)
      exact ⟨hmidEq, by rw [heq, hmidEq]⟩
    · rintro ⟨hfirst, hlast⟩
      rw [hlast, hfirst]

omit [DecidableEq Name] in
/-- An event that moves the cursor only. -/
theorem SameWrites.written (h : SameWrites w w') (s : CInt) {o : Observation}
    (ho : acceptedPackets s [o] = [])
    (hfails : ¬ Fails s o) : Written w w' s [o] :=
  (h.flow s).written (by rw [ho]; rfl) ⟨fun _ => by simpa [Failed] using hfails, fun _ => rfl⟩

omit [DecidableEq Name] in
/-- The bytes of a packet count exactly if it is accepted, and for its socket only. -/
theorem flatten_acceptedPackets_sent (s t : CInt) (bufs : List (List UInt8)) (rc : WriteResult) :
    (acceptedPackets s [.sent t bufs rc]).flatten = if t = s then accepted bufs rc else [] := by
  by_cases hts : t = s <;> cases rc <;> simp [acceptedPackets, accepted, hts]

omit [DecidableEq Name] in
theorem sameWrites_storeQoS0 (w : PacketWriter Name) (t : CInt) (memory : WriteMemory Name) :
    SameWrites w (w.storeQoS0 t memory) := by
  rw [storeQoS0]
  split
  · exact ⟨rfl, rfl, id, rfl, rfl⟩
  · exact SameWrites.refl w

/-- The same writer after other connections. -/
def withTaken (w : PacketWriter Name) (taken : CInt → List UInt8) : PacketWriter Name :=
  { w with taken := taken }

omit [DecidableEq Name] in
theorem Ok.withTaken (h : w.Ok) (taken : CInt → List UInt8) : (w.withTaken taken).Ok :=
  ⟨h.names, h.sockets, h.cursor, h.same, h.total, h.short, h.watched⟩

/-- **One event** goes through, and does what is right to every connection that it does not begin or
end. -/
theorem step_spec (h : w.Ok) (e : Event Name) (hmalloc : w.MallocSucceeds e) :
    ∃ w' o, w.step e = .ok (w', o) ∧ w'.Ok ∧ ∀ s, ¬ OpensOrCloses s e → Written w w' s [o] := by
  cases e with
  | connect t =>
      obtain ⟨hok, -, hothers⟩ := close_spec h t
      refine ⟨_, _, rfl, hok.withTaken _, fun s hs => ?_⟩
      have hne : s ≠ t := fun hst => hs hst.symm
      have hflow : Flow (w.close t) ((w.close t).withTaken fun s => if s = t then []
          else (w.close t).taken s) s [] [] :=
        .of_same (if_neg hne) rfl
      exact ((hothers s hne).trans hflow).written rfl
        ⟨fun _ => by simp [Failed, Fails], fun _ => rfl⟩
  | send t qos0 bufs room memory =>
      obtain ⟨rc, w', hputdatas, hok, hflow, hothers⟩ := putdatas_spec h hmalloc
      have hsend : w.send t qos0 bufs room memory =
          (rc, if qos0 ∧ rc = .interrupted then w'.storeQoS0 t memory else w') := by
        rw [send, hputdatas]
      have hsame : SameWrites w' (if qos0 ∧
          rc = .interrupted then w'.storeQoS0 t memory else w') := by
        split
        · exact sameWrites_storeQoS0 w' t memory
        · exact SameWrites.refl w'
      refine ⟨_, .sent t bufs rc, by rw [step, hsend], hsame.ok hok, fun s _ => ?_⟩
      by_cases hst : s = t
      · subst hst
        refine (hflow.trans (hsame.flow s)).written ?_
          ⟨fun _ => by simp [Failed, Fails], fun _ => rfl⟩
        rw [List.append_nil, flatten_acceptedPackets_sent, if_pos rfl]
      · refine ((hothers s hst).trans (hsame.flow s)).written ?_
          ⟨fun _ => by simp [Failed, Fails], fun _ => rfl⟩
        rw [flatten_acceptedPackets_sent, if_neg fun hts => hst hts.symm]
        rfl
  | noPendingWrites t =>
      have hsame := sameWrites_noPendingWrites w t
      exact ⟨_, _, rfl, hsame.ok h, fun s _ => hsame.written s rfl id⟩
  | continueWrites pwset rooms =>
      obtain ⟨out, w', hcontinue, hok, hround⟩ := continueWrites_spec h pwset rooms
      refine ⟨w', .continued out, congrArg (Except.map _) hcontinue, hok, fun s _ => ?_⟩
      obtain ⟨lost, hflow, hlost⟩ := hround s
      refine hflow.written rfl ?_
      rw [hlost]
      simp [Failed, Fails]
  | close t =>
      obtain ⟨hok, -, hothers⟩ := close_spec h t
      refine ⟨_, _, rfl, hok, fun s hs => ?_⟩
      have hne : s ≠ t := fun hst => hs hst.symm
      refine (hothers s hne).written rfl ⟨fun _ => ?_, fun _ => rfl⟩
      simp [Failed, Fails]

variable {es es₁ es₂ : List (Event Name)}

/-- One step after the other. -/
theorem Written.run (h : w.Ok) (hmalloc : (writerMachine Name).Along MallocSucceeds w es)
    (hs : ∀ e ∈ es, ¬ OpensOrCloses s e) :
    Written w ((writerMachine Name).run w es).state s ((writerMachine Name).run w es).out := by
  induction es generalizing w with
  | nil =>
      refine (Flow.of_same rfl rfl).written rfl ⟨fun _ => ?_, fun _ => rfl⟩
      rintro ⟨o, hmem, -⟩
      cases hmem
  | cons e es ih =>
      obtain ⟨w', o, hstep, hok, hwritten⟩ := step_spec h e hmalloc.1
      have hrest := ih hok (hmalloc.2 w' o hstep) fun e' he' => hs e' (List.mem_cons_of_mem _ he')
      rw [(writerMachine Name).run_cons_ok es hstep]
      exact (hwritten s (hs e List.mem_cons_self)).trans hrest

/-- The invariant over runs. -/
theorem Ok.run (h : w.Ok) (hmalloc : (writerMachine Name).Along MallocSucceeds w es) :
    ((writerMachine Name).run w es).stop = none ∧ ((writerMachine Name).run w es).state.Ok := by
  have hany : (writerMachine Name).Along (fun _ _ => True) w es :=
    Machine.along_of_forall fun _ _ => trivial
  refine Machine.run_ok hany hmalloc h fun w e hw _ he => ?_
  obtain ⟨w', o, hstep, hok, -⟩ := step_spec hw e he
  exact ⟨w', o, hstep, hok⟩

/-- **Writing is safe.**  Over any run, while there is memory for what is interrupted, nothing is
used that does not exist, the loops end, and the two lists, the watched sockets and the cursor
agree. -/
theorem run_safe (hmalloc : (writerMachine Name).Along MallocSucceeds initial es) :
    ((writerMachine Name).run initial es).stop = none ∧
      ((writerMachine Name).run initial es).state.Ok :=
  ok_initial.run hmalloc

/-- A connection to a socket that takes a packet in pieces, while another one has a write that
fails. -/
def writtenInPieces : List (Event ℕ) :=
  [.send 3 true (mqttPacketSends ⟨.publish, false, 0, false⟩ [[0, 1], [116], [120]]) (.bytes 3)
    ⟨true, true, some 0, true⟩,
    .send 4 false sendPingreqBuffers .wouldBlock ⟨true, true, some 1, true⟩,
    .noPendingWrites 3, .continueWrites [3, 4] [.bytes 1, .failed], .continueWrites [3] [.bytes 1],
    .continueWrites [3] [.bytes 9]]

/-- The run with a packet in pieces and a write that fails. -/
theorem run_safe_inPieces :
    ((writerMachine ℕ).run initial ([.connect 4] ++ .connect 3 :: writtenInPieces)).stop = none ∧
      ((writerMachine ℕ).run initial ([.connect 4] ++ .connect 3 :: writtenInPieces)).state.Ok :=
  run_safe (by decide)

/-- From where a connection begins, nothing is there but what is accepted for it. -/
theorem written_of_connect
    (hmalloc : (writerMachine Name).Along MallocSucceeds initial (es₁ ++ .connect s :: es₂))
    (hs : ∀ e ∈ es₂, ¬ OpensOrCloses s e) :
    ∃ w, w.stream s = [] ∧
      Written w ((writerMachine Name).run initial (es₁ ++ .connect s :: es₂)).state s
        (((writerMachine Name).run initial (es₁ ++ .connect s :: es₂)).out.drop
          (es₁.length + 1)) := by
  obtain ⟨hstop₁, hok₁⟩ := ok_initial.run hmalloc.of_append
  have hmalloc₂ := hmalloc.append_right hstop₁
  obtain ⟨w, o, hstep, hok, -⟩ := step_spec hok₁ (.connect s) hmalloc₂.1
  obtain ⟨-, hnone, -⟩ := close_spec hok₁ s
  have hstream : w.stream s = [] := by
    cases hstep
    have htaken : (if s = s then []
        else (((writerMachine Name).run initial es₁).state.close s).taken s) = [] := if_pos rfl
    exact congrArg₂ (· ++ ·) htaken (rest_of_none hnone)
  have hconnect : (writerMachine Name).step ((writerMachine Name).run initial es₁).state
      (.connect s) = .ok (w, o) := hstep
  obtain ⟨hstate, hout⟩ := (writerMachine Name).run_after es₂ hstop₁ hconnect
  refine ⟨w, hstream, ?_⟩
  rw [hstate, hout]
  exact Written.run hok (hmalloc₂.2 w o hstep) hs

/-- The answer whether output is pending. -/
theorem Ok.noPendingWrites (h : w.Ok) : (w.noPendingWrites s).1 = true ↔ w.rest s = [] := by
  rw [noPendingWrites_eq, h.rest_eq_nil]

/-- **The bytes of a connection.**  Over any run, with any number of sockets, what a connection has
taken and what is pending for it are a part, in order, of the packets that were accepted for it.
They are exactly these packets, one after the other, if and only if going on with a write has not
failed, and the answer that nothing is pending is right. -/
theorem run_written (hmalloc : (writerMachine Name).Along MallocSucceeds initial
    (es₁ ++ .connect s :: es₂))
    (hs : ∀ e ∈ es₂, ¬ OpensOrCloses s e) :
    let w := ((writerMachine Name).run initial (es₁ ++ .connect s :: es₂)).state
    let out := ((writerMachine Name).run initial (es₁ ++ .connect s :: es₂)).out.drop
      (es₁.length + 1)
    (w.taken s ++ w.rest s).Sublist (acceptedPackets s out).flatten ∧
      (w.taken s ++ w.rest s = (acceptedPackets s out).flatten ↔ ¬ Failed s out) ∧
      ((w.noPendingWrites s).1 = true ↔ w.rest s = []) := by
  obtain ⟨w, hnil, hwritten⟩ := written_of_connect hmalloc hs
  have hpart := hwritten.part
  have hwhole := hwritten.whole
  rw [hnil, List.nil_append] at hpart hwhole
  exact ⟨hpart, hwhole, (ok_initial.run hmalloc).2.noPendingWrites⟩

/-- The bytes of the packet that was written in pieces. -/
theorem run_written_inPieces :
    let w := ((writerMachine ℕ).run initial ([.connect 4] ++ .connect 3 :: writtenInPieces)).state
    let out := ((writerMachine ℕ).run initial
      ([.connect 4] ++ .connect 3 :: writtenInPieces)).out.drop 2
    (w.taken 3 ++ w.rest 3).Sublist (acceptedPackets 3 out).flatten ∧
      (w.taken 3 ++ w.rest 3 = (acceptedPackets 3 out).flatten ↔ ¬ Failed 3 out) ∧
      ((w.noPendingWrites 3).1 = true ↔ w.rest 3 = []) :=
  run_written (by decide) (by decide)

/-- **From sender to receiver.**  Let packets be written to a socket, in pieces and among those for
any other sockets, and let the other end of the connection read, in pieces and among any other
connections, what has come of the bytes that were taken, where a socket that a read failed for is
closed before the next one is read.  If going on with a write has not failed, then the packets that
are read are the first of those that were accepted; and they are all of them once nothing is
pending, everything has come and everything is read, if the connection stays open. -/
theorem packets_delivered
    (hmalloc : (writerMachine Name).Along MallocSucceeds initial (es₁ ++ .connect s :: es₂))
    (hs : ∀ e ∈ es₂, ¬ OpensOrCloses s e) {fs : List (UInt8 × List UInt8)}
    (hfs : ∀ f ∈ fs, f.2.length < 128 ^ 4)
    {net : CInt → List Arrival} {rs₁ rs₂ : List Reader.Event} {arrivals : List Arrival}
    (hconnect : ∀ as, .connect t as ∉ rs₂)
    (hclosed : readerMachine.Along Reader.State.ClosesFailed (.initial net)
      (rs₁ ++ .connect t arrivals :: rs₂)) :
    let w := ((writerMachine Name).run initial (es₁ ++ .connect s :: es₂)).state
    let out := ((writerMachine Name).run initial (es₁ ++ .connect s :: es₂)).out.drop
      (es₁.length + 1)
    let r := (readerMachine.run (.initial net) (rs₁ ++ .connect t arrivals :: rs₂)).state
    let packets := packetsOf t
      ((readerMachine.run (.initial net) (rs₁ ++ .connect t arrivals :: rs₂)).out.drop
        (rs₁.length + 1))
    acceptedPackets s out = fs.map packetBytes → ¬ Failed s out →
      Arrival.stream arrivals <+: w.taken s →
      packets <+: fs ∧
        (Arrival.Open arrivals → .close t ∉ rs₂ → (w.noPendingWrites s).1 = true →
          Arrival.stream arrivals = w.taken s → Arrival.stream (r.net t) = [] →
          packets = fs) := by
  intro w out r packets haccepted hfailed hsofar
  obtain ⟨w₀, hnil, hwritten⟩ := written_of_connect hmalloc hs
  have hwhole := hwritten.whole.mpr hfailed
  rw [hnil, List.nil_append] at hwhole
  have hbytes : w.taken s ++ w.rest s = fs.flatMap packetBytes := by
    rw [List.flatMap_def, ← haccepted]
    exact hwhole
  have hprogress := progress_of_connect hconnect hclosed
  obtain ⟨hfirst, hall⟩ := hprogress.read hfs (hsofar.trans ⟨_, hbytes⟩)
  refine ⟨hfirst, fun hopen hclose hfree harrived => hall ⟨hopen, hclose⟩ ?_⟩
  have hrest : w.rest s = [] := (ok_initial.run hmalloc).2.noPendingWrites.mp hfree
  rw [harrived, ← hbytes, hrest, List.append_nil]

/-- What the other end finds: the packet in two pieces. -/
def arrivedInPieces : List Arrival := [.chunk 48 [4, 0], .wouldBlock, .chunk 1 [116, 120]]

/-- The packet that was written in pieces is read in two other pieces. -/
theorem packets_delivered_inPieces :
    let w := ((writerMachine ℕ).run initial ([.connect 4] ++ .connect 3 :: writtenInPieces)).state
    let r := (readerMachine.run (.initial fun _ => [])
      ([] ++ .connect 7 arrivedInPieces :: [.ready 7, .ready 7])).state
    let packets := packetsOf 7 ((readerMachine.run (.initial fun _ => [])
      ([] ++ .connect 7 arrivedInPieces :: [.ready 7, .ready 7])).out.drop 1)
    packets <+: [(48, [0, 1, 116, 120])] ∧
      (Arrival.Open arrivedInPieces → .close 7 ∉ [Reader.Event.ready 7, .ready 7] →
        (w.noPendingWrites 3).1 = true → Arrival.stream arrivedInPieces = w.taken 3 →
        Arrival.stream (r.net 7) = [] → packets = [(48, [0, 1, 116, 120])]) :=
  @packets_delivered ℕ 3 7 _ [.connect 4] writtenInPieces (by decide) (by decide)
    [(48, [0, 1, 116, 120])] (by decide) (fun _ => []) [] [.ready 7, .ready 7] arrivedInPieces
    (by simp) (by decide +kernel) (by decide) (by decide) (by decide)

end PacketWriter
