/-
# Packets out of a stream

However the bytes of packets are cut into pieces on their way, and however the reading of
several sockets is interleaved, each socket gives the packets of its own stream, in their
order and once each.

* `readPacket_spec` : what one attempt to read makes of the bytes that are there;
* `run_frames` : over any run, the packets of a connection are the frames of what was read;
* `packets_received` : the packets that were written are those that are read.
-/
import DataLogger.SocketBuffer
import DataLogger.PacketFormat

/-! ## Queues and their sockets -/

namespace SocketBuffer

variable {b : SocketBuffer} {s t : CInt} {q : SocketQueue}

/-- What is found for a socket is its queue. -/
theorem socket_of_find (h : b.find s = some q) : q.socket = s := by
  have hp := List.find?_some h
  simpa using hp

theorem queueOf_of_find (h : b.find s = some q) : b.queueOf s = q := by
  rw [queueOf, h, Option.getD_some]

theorem queueOf_of_none (h : b.find s = none) : b.queueOf s = b.defQueue := by
  rw [queueOf, h, Option.getD_none]

/-- The queue that is in the list for a socket is its own. -/
theorem socket_queueOf (h : b.find s ≠ none) : (b.queueOf s).socket = s := by
  obtain ⟨q, hfind⟩ := Option.ne_none_iff_exists'.mp h
  rw [queueOf_of_find hfind]
  exact socket_of_find hfind

/-- The list of queues has one queue of a socket at most. -/
def Distinct (b : SocketBuffer) : Prop := b.queues.Pairwise fun q q' => q.socket ≠ q'.socket

/-- The new queue of a socket is found, and the others as before. -/
theorem find?_replaceFirst {qs : List SocketQueue} (hq : q.socket = s)
    (hfound : qs.find? (fun q' => q'.socket = s) ≠ none) :
    (replaceFirst s q qs).find? (fun q' => q'.socket = t) =
      if t = s then some q else qs.find? fun q' => q'.socket = t := by
  induction qs with
  | nil => exact absurd rfl hfound
  | cons q' qs ih =>
      rw [replaceFirst]
      by_cases hs : q'.socket = s
      · rw [if_pos hs]
        by_cases ht : t = s
        · simp [ht, hq]
        · simp [hq, hs, Ne.symm ht, ht]
      · rw [if_neg hs]
        rw [List.find?_cons_of_neg (by simpa using hs)] at hfound
        by_cases ht : q'.socket = t
        · have hts : t ≠ s := fun h => hs (ht.trans h)
          simp [ht, hts]
        · simp only [List.find?_cons, ht, decide_false]
          exact ih hfound

/-- A new queue of a socket changes no socket. -/
theorem map_socket_replaceFirst {qs : List SocketQueue} (hq : q.socket = s) :
    (replaceFirst s q qs).map (·.socket) = qs.map (·.socket) := by
  induction qs with
  | nil => rfl
  | cons q' qs ih =>
      rw [replaceFirst]
      split
      · next hs => rw [List.map_cons, List.map_cons, hq, hs]
      · rw [List.map_cons, List.map_cons, ih]

theorem distinct_iff : b.Distinct ↔ (b.queues.map (·.socket)).Nodup := by
  rw [Distinct, List.Nodup, List.pairwise_map]

/-- The queue of a socket is changed in the list if it is there. -/
theorem setQueueOf_of_find {q' : SocketQueue} (h : b.find s = some q') :
    b.setQueueOf s q = { b with queues := replaceFirst s q b.queues } := by
  rw [setQueueOf, if_neg (by rw [h]; exact Option.some_ne_none _)]

/-- The default queue is changed if the socket has no other. -/
theorem setQueueOf_of_none (h : b.find s = none) : b.setQueueOf s q = { b with defQueue := q } := by
  rw [setQueueOf, if_pos h]

/-- The queue that was changed is found, and the others as before. -/
theorem find_setQueueOf {q' : SocketQueue} (h : b.find s = some q') (hq : q.socket = s) :
    (b.setQueueOf s q).find t = if t = s then some q else b.find t := by
  rw [setQueueOf_of_find h]
  exact find?_replaceFirst hq (by rw [← find, h]; exact Option.some_ne_none _)

/-- Changing a queue leaves one queue a socket. -/
theorem distinct_setQueueOf (hb : b.Distinct) (hq : b.find s ≠ none → q.socket = s) :
    (b.setQueueOf s q).Distinct := by
  rcases h : b.find s with _ | q'
  · rw [setQueueOf_of_none h]
    exact hb
  · rw [setQueueOf_of_find h, distinct_iff,
      map_socket_replaceFirst (hq (by rw [h]; exact Option.some_ne_none _))]
    exact distinct_iff.mp hb

/-- The queue of a socket is gone, and the others are found as before. -/
theorem find?_eraseP {qs : List SocketQueue} (hqs : qs.Pairwise fun q q' => q.socket ≠ q'.socket) :
    (qs.eraseP fun q => q.socket = s).find? (fun q => q.socket = t) =
      if t = s then none else qs.find? fun q => q.socket = t := by
  induction qs with
  | nil => simp
  | cons q qs ih =>
      obtain ⟨hne, hqs⟩ := List.pairwise_cons.mp hqs
      by_cases hs : q.socket = s
      · rw [List.eraseP_cons_of_pos (by simpa using hs)]
        by_cases ht : t = s
        · rw [if_pos ht, List.find?_eq_none]
          intro q' hq'
          simpa [ht, ← hs] using Ne.symm (hne q' hq')
        · rw [if_neg ht, List.find?_cons_of_neg (by simpa [hs] using Ne.symm ht)]
      · rw [List.eraseP_cons_of_neg (by simpa using hs), List.find?_cons, List.find?_cons]
        by_cases ht : q.socket = t
        · have hts : t ≠ s := fun h => hs (ht.trans h)
          simp [ht, hts]
        · simp only [ht, decide_false]
          exact ih hqs

/-- Taking the queue of a socket out of the list. -/
theorem find_complete (hb : b.Distinct) :
    (b.complete s).find t = if t = s then none else b.find t := by
  rcases h : b.find s with _ | q
  · simp only [complete, h]
    by_cases ht : t = s
    · rw [if_pos ht, ht]
      exact h
    · rw [if_neg ht]
      rfl
  · simp only [complete, h]
    exact find?_eraseP hb

/-- A packet that is complete leaves one queue a socket. -/
theorem distinct_complete (hb : b.Distinct) : (b.complete s).Distinct := by
  rcases h : b.find s with _ | q
  · simp only [complete, h]
    exact hb
  · simp only [complete, h]
    exact hb.sublist (List.eraseP_sublist)

/-- Adding the default queue to the list. -/
theorem find_interrupted {n : ℕ} : (b.interrupted s n).find t =
    if t = s then some { b.queueOf s with socket := s, index := 0, datalen := n }
    else b.find t := by
  rcases h : b.find s with _ | q
  · simp only [interrupted, h]
    rw [queueOf_of_none h, find, List.find?_append, ← find]
    by_cases ht : t = s
    · rw [if_pos ht, ht, h]
      simp
    · rw [if_neg ht]
      simp [Ne.symm ht]
  · have hsocket := socket_of_find h
    simp only [interrupted, h, queueOf_of_find h]
    rw [find_setQueueOf h (by exact hsocket)]
    split <;> simp [← hsocket]

/-- A packet that is not complete leaves one queue a socket. -/
theorem distinct_interrupted {n : ℕ} (hb : b.Distinct) : (b.interrupted s n).Distinct := by
  rcases h : b.find s with _ | q
  · simp only [interrupted, h, Distinct, List.pairwise_append]
    refine ⟨hb, List.pairwise_singleton _ _, ?_⟩
    intro q hq q' hq'
    rw [List.mem_singleton] at hq'
    have hne := List.find?_eq_none.mp h q hq
    simpa [hq'] using hne
  · simp only [interrupted, h]
    have hsocket := socket_of_find h
    exact distinct_setQueueOf hb fun _ => hsocket

theorem queues_cleanup : (b.cleanup s).queues = b.queues.eraseP fun q => q.socket = s := by
  simp only [cleanup]
  split <;> rfl

/-- The default queue is given up if it was the socket's. -/
theorem defQueue_cleanup : (b.cleanup s).defQueue = if b.defQueue.socket = s then
    { b.defQueue with socket := 0, index := 0, headerlen := 0, datalen := 0 } else b.defQueue := by
  simp only [cleanup]
  split <;> rfl

/-- A socket that is closed has no queue any more, and the others have theirs. -/
theorem find_cleanup (hb : b.Distinct) :
    (b.cleanup s).find t = if t = s then none else b.find t := by
  rw [find, queues_cleanup]
  exact find?_eraseP hb

/-- Closing a socket leaves one queue a socket. -/
theorem distinct_cleanup (hb : b.Distinct) : (b.cleanup s).Distinct := by
  rw [Distinct, queues_cleanup]
  exact hb.sublist List.eraseP_sublist

end SocketBuffer

theorem take_succ_set {α : Type*} {l : List α} {k : ℕ} {a : α} (hk : k < l.length) :
    (l.set k a).take (k + 1) = l.take k ++ [a] := by
  rw [List.take_set, List.take_add_one, List.getElem?_eq_getElem hk, Option.toList_some,
    List.set_append_right _ _ (by simp), List.length_take_of_le hk.le, Nat.sub_self]
  rfl

/-! ## What a queue holds -/

/-- The queue has the bytes `hd` of a header, of which the first `k` have been read again. -/
structure SocketQueue.HasHeader (q : SocketQueue) (k : ℕ) (hd : List UInt8) : Prop where
  index : q.index = k
  header : q.fixedHeader.take hd.length = hd.map some
  headerlen : q.headerlen = hd.length
  fixed : q.fixedHeader.length = 5
  buflen : q.buflen ≤ q.buf.length

/-- The queue has the bytes `data` that follow the header. -/
structure SocketQueue.HasData (q : SocketQueue) (data : List UInt8) : Prop where
  stored : q.buf.take data.length = data.map some
  datalen : q.datalen = data.length

/-- Reading the header leaves the data in a queue alone. -/
structure SocketQueue.SameData (q q' : SocketQueue) : Prop where
  buf : q'.buf = q.buf
  buflen : q'.buflen = q.buflen
  datalen : q'.datalen = q.datalen

theorem SocketQueue.SameData.hasData {q q' : SocketQueue} {data : List UInt8} (h : q.SameData q')
    (hdata : q.HasData data) : q'.HasData data :=
  ⟨by rw [h.buf, hdata.stored], by rw [h.datalen, hdata.datalen]⟩

theorem SocketQueue.SameData.trans {q q' q'' : SocketQueue} (h : q.SameData q')
    (h' : q'.SameData q'') :
    q.SameData q'' :=
  ⟨h'.buf.trans h.buf, h'.buflen.trans h.buflen, h'.datalen.trans h.datalen⟩

/-- The bytes are the beginning of a packet: a header that is not complete, or a complete header and
fewer bytes than it says, for which the buffer is large enough. -/
inductive Beginning (buflen : ℕ) : List UInt8 → List UInt8 → Prop
  | empty : Beginning buflen [] []
  | header {aHeader : UInt8} {digits : List UInt8} (h : decode digits = .more) :
      Beginning buflen (aHeader :: digits) []
  | data {aHeader : UInt8} {digits data : List UInt8} {n : CULong} (h : decode digits = .done n [])
      (hlt : data.length < n.toNat) (hroom : data ≠ [] → n.toNat ≤ buflen) :
      Beginning buflen (aHeader :: digits) data

/-- The beginning of a packet is not a packet. -/
theorem Beginning.parse {buflen : ℕ} {hd data : List UInt8} (h : Beginning buflen hd data) :
    parsePacket (hd ++ data) = .more := by
  cases h with
  | empty => rfl
  | header h => rw [List.append_nil, parsePacket, h]
  | @data aHeader digits data n h hlt hroom =>
      have happ := decodeLoop_append 0 1 0 digits data
      rw [← decode, ← decode, h] at happ
      rcases happ with hmore | happ
      · cases hmore
      · rw [List.cons_append, parsePacket, happ]
        exact if_neg (Nat.not_le.mpr hlt)

/-- No digits follow a length that is complete. -/
theorem Beginning.eq_nil_of_done {buflen : ℕ} {aHeader : UInt8} {ds e data : List UInt8}
    {n : CULong}
    (h : Beginning buflen (aHeader :: (ds ++ e)) data) (hds : decode ds = .done n []) : e = [] := by
  have happ := decodeLoop_append 0 1 0 ds e
  rw [← decode, ← decode, hds] at happ
  rcases happ with hmore | happ
  · cases hmore
  · cases h with
    | header h =>
        rw [happ] at h
        cases h
    | data h hlt hroom =>
        rw [happ] at h
        cases h
        rfl

/-- Data follow only a length that is complete. -/
theorem Beginning.data_eq_nil {buflen : ℕ} {aHeader : UInt8} {ds data : List UInt8}
    (h : Beginning buflen (aHeader :: ds) data) (hds : decode ds = .more) : data = [] := by
  cases h with
  | header h => rfl
  | data h hlt hroom =>
      rw [h] at hds
      cases hds

namespace SocketBuffer

/-- No packet is being read: the default queue is empty, and each queue has the beginning of a
packet. -/
structure Idle (b : SocketBuffer) : Prop where
  distinct : b.Distinct
  socket : b.defQueue.socket = 0
  header : b.defQueue.HasHeader 0 []
  datalen : b.defQueue.datalen = 0
  queues : ∀ {s q}, b.find s = some q →
    ∃ hd data, q.HasHeader 0 hd ∧ q.HasData data ∧ Beginning q.buflen hd data

/-- No packet is being read at first. -/
theorem idle_initial : initial.Idle where
  distinct := List.Pairwise.nil
  socket := rfl
  header := ⟨rfl, rfl, rfl, rfl, Nat.zero_le _⟩
  datalen := rfl
  queues := by
    intro s q h
    cases h

/-- The bytes of the packet that a socket has begun. -/
def pending (b : SocketBuffer) (s : CInt) : List UInt8 :=
  match b.find s with
  | none => []
  | some q => (q.fixedHeader.take q.headerlen ++ q.buf.take q.datalen).filterMap id

/-- A socket without a queue has nothing begun. -/
theorem pending_of_none {b : SocketBuffer} {s : CInt} (h : b.find s = none) : b.pending s = [] := by
  rw [pending, h]

/-- What a socket has begun is in its queue. -/
theorem pending_of_find {b : SocketBuffer} {s : CInt} {q : SocketQueue} {k : ℕ}
    {hd data : List UInt8}
    (h : b.find s = some q) (hhd : q.HasHeader k hd) (hdata : q.HasData data) :
    b.pending s = hd ++ data := by
  rw [pending, h]
  simp only [hhd.headerlen, hhd.header, hdata.datalen, hdata.stored, ← List.map_append,
    List.filterMap_map]
  exact List.filterMap_some

/-- A packet is being read from the socket `s` since the queues were `b₀`: the bytes `hd` of its
header have come, and the first `k` of them have been read again. -/
structure Reading (b₀ b : SocketBuffer) (s : CInt) (k : ℕ) (hd : List UInt8) : Prop where
  start : b₀.Idle
  frame : ∀ {t}, t ≠ s → b.find t = b₀.find t
  distinct : b.Distinct
  header : (b.queueOf s).HasHeader k hd
  le : k ≤ hd.length
  own : b.find s ≠ none →
    b.defQueue.socket = 0 ∧ b.defQueue.HasHeader 0 [] ∧ b.defQueue.datalen = 0
  shared : b.find s = none → k = hd.length ∧ b.defQueue.datalen = 0 ∧
    (b.defQueue.socket = s ∨ b.defQueue.socket = 0 ∧ hd = [])

/-- Reading begins where the last attempt stopped. -/
theorem Idle.reading {b : SocketBuffer} (h : b.Idle) (s : CInt) : ∃ hd data, Reading b b s 0 hd ∧
    (b.queueOf s).HasData data ∧ Beginning (b.queueOf s).buflen hd data ∧
    b.pending s = hd ++ data := by
  rcases hfind : b.find s with _ | q
  · have hqueue := queueOf_of_none hfind
    refine ⟨[], [], ⟨h, fun _ => rfl, h.distinct, hqueue ▸ h.header, le_refl 0, ?_, ?_⟩, ?_, .empty,
      ?_⟩
    · exact fun hne => absurd hfind hne
    · exact fun _ => ⟨rfl, h.datalen, Or.inr ⟨h.socket, rfl⟩⟩
    · exact hqueue ▸ ⟨rfl, h.datalen⟩
    · exact pending_of_none hfind
  · obtain ⟨hd, data, hhd, hdata, hbegin⟩ := h.queues hfind
    have hqueue := queueOf_of_find hfind
    refine ⟨hd, data, ⟨h, fun _ => rfl, h.distinct, hqueue ▸ hhd, Nat.zero_le _, ?_, ?_⟩,
      hqueue ▸ hdata,
      hqueue ▸ hbegin, pending_of_find hfind hhd hdata⟩
    · exact fun _ => ⟨h.socket, h.header, h.datalen⟩
    · intro hnone
      rw [hnone] at hfind
      cases hfind

/-- The queues after an attempt to read from `s`, which has begun the packet `p`. -/
structure After (b₀ b : SocketBuffer) (s : CInt) (p : List UInt8) : Prop where
  idle : b.Idle
  pending : b.pending s = p
  frame : ∀ {t}, t ≠ s → b.find t = b₀.find t

/-- Closing a socket when no packet is being read. -/
theorem Idle.cleanup {b : SocketBuffer} (h : b.Idle) (s : CInt) : After b (b.cleanup s) s [] := by
  have hfind : ∀ {t}, (b.cleanup s).find t = if t = s then none else b.find t :=
    find_cleanup h.distinct
  have hdef : (b.cleanup s).defQueue.socket = 0 ∧ (b.cleanup s).defQueue.HasHeader 0 [] ∧
      (b.cleanup s).defQueue.datalen = 0 := by
    rw [defQueue_cleanup]
    split
    · exact ⟨rfl, ⟨rfl, rfl, rfl, h.header.fixed, h.header.buflen⟩, rfl⟩
    · exact ⟨h.socket, h.header, h.datalen⟩
  refine ⟨⟨distinct_cleanup h.distinct, hdef.1, hdef.2.1, hdef.2.2, ?_⟩, ?_, ?_⟩
  · intro t q hq
    rw [hfind] at hq
    split at hq
    · cases hq
    · exact h.queues hq
  · exact pending_of_none (by rw [hfind, if_pos rfl])
  · intro t ht
    rw [hfind, if_neg ht]

section Reading

variable {b₀ b : SocketBuffer} {s : CInt} {k : ℕ} {hd data : List UInt8} (h : Reading b₀ b s k hd)

include h

/-- The packet is not complete yet. -/
theorem Reading.interrupted (hstored : (b.queueOf s).buf.take data.length = data.map some)
    (hbegin : Beginning (b.queueOf s).buflen hd data) :
    After b₀ (b.interrupted s data.length) s (hd ++ data) := by
  have hhd : ({ b.queueOf s with socket := s, index := 0, datalen := data.length } :
      SocketQueue).HasHeader
      0 hd := ⟨rfl, h.header.header, h.header.headerlen, h.header.fixed, h.header.buflen⟩
  have hdef : (b.interrupted s data.length).defQueue.socket = 0 ∧
      (b.interrupted s data.length).defQueue.HasHeader 0 [] ∧
      (b.interrupted s data.length).defQueue.datalen = 0 := by
    rcases hfind : b.find s with _ | q
    · simp only [SocketBuffer.interrupted, hfind]
      exact ⟨rfl, ⟨rfl, rfl, rfl, rfl, Nat.zero_le _⟩, rfl⟩
    · simp only [SocketBuffer.interrupted, hfind]
      rw [setQueueOf_of_find hfind]
      exact h.own (by rw [hfind]; exact Option.some_ne_none _)
  refine ⟨⟨distinct_interrupted h.distinct, hdef.1, hdef.2.1, hdef.2.2, ?_⟩, ?_, ?_⟩
  · intro t q hq
    rw [find_interrupted] at hq
    split at hq
    · cases hq
      exact ⟨hd, data, hhd, ⟨hstored, rfl⟩, hbegin⟩
    · next ht =>
        rw [h.frame ht] at hq
        exact h.start.queues hq
  · exact pending_of_find (by rw [find_interrupted, if_pos rfl]) hhd ⟨hstored, rfl⟩
  · intro t ht
    rw [find_interrupted, if_neg ht, h.frame ht]

/-- The packet is complete. -/
theorem Reading.complete : After b₀ (b.complete s) s [] := by
  have hdef : (b.complete s).defQueue =
      { b.queueOf s with socket := 0, index := 0, headerlen := 0, datalen := 0 } := by
    rcases hfind : b.find s with _ | q
    · simp only [SocketBuffer.complete, hfind, queueOf_of_none hfind]
    · simp only [SocketBuffer.complete, hfind, queueOf_of_find hfind]
  have hfind : ∀ {t}, (b.complete s).find t = if t = s then none else b.find t :=
    find_complete h.distinct
  refine ⟨⟨distinct_complete h.distinct, by rw [hdef], ?_, by rw [hdef], ?_⟩, ?_, ?_⟩
  · rw [hdef]
    exact ⟨rfl, rfl, rfl, h.header.fixed, h.header.buflen⟩
  · intro t q hq
    rw [hfind] at hq
    split at hq
    · cases hq
    · next ht =>
        rw [h.frame ht] at hq
        exact h.start.queues hq
  · exact pending_of_none (by rw [hfind, if_pos rfl])
  · intro t ht
    rw [hfind, if_neg ht, h.frame ht]

/-- The socket is closed. -/
theorem Reading.cleanup (hs : s ≠ 0) : After b₀ (b.cleanup s) s [] := by
  have hdef : (b.cleanup s).defQueue.socket = 0 ∧ (b.cleanup s).defQueue.HasHeader 0 [] ∧
      (b.cleanup s).defQueue.datalen = 0 := by
    rw [defQueue_cleanup]
    split
    · next hsocket =>
        have hfind : b.find s = none := by
          by_contra hne
          exact hs (hsocket.symm.trans (h.own hne).1)
        have hheader := queueOf_of_none hfind ▸ h.header
        exact ⟨rfl, ⟨rfl, rfl, rfl, hheader.fixed, hheader.buflen⟩, rfl⟩
    · next hsocket =>
        rcases hfind : b.find s with _ | q
        · obtain ⟨rfl, hdatalen, hcase⟩ := h.shared hfind
          rcases hcase with heq | ⟨hzero, rfl⟩
          · exact absurd heq hsocket
          · exact ⟨hzero, queueOf_of_none hfind ▸ h.header, hdatalen⟩
        · exact h.own (by rw [hfind]; exact Option.some_ne_none _)
  have hfind : ∀ {t}, (b.cleanup s).find t = if t = s then none else b.find t :=
    find_cleanup h.distinct
  refine ⟨⟨distinct_cleanup h.distinct, hdef.1, hdef.2.1, hdef.2.2, ?_⟩, ?_, ?_⟩
  · intro t q hq
    rw [hfind] at hq
    split at hq
    · cases hq
    · next ht =>
        rw [h.frame ht] at hq
        exact h.start.queues hq
  · exact pending_of_none (by rw [hfind, if_pos rfl])
  · intro t ht
    rw [hfind, if_neg ht, h.frame ht]

/-- Another socket is closed while the packet is being read. -/
theorem Reading.cleanup_other {t : CInt} (ht : t ≠ s) :
    Reading (b₀.cleanup t) (b.cleanup t) s k hd := by
  have hfind : (b.cleanup t).find s = b.find s := by
    rw [find_cleanup h.distinct, if_neg ht.symm]
  have hreset : b.defQueue.socket = t → (b.cleanup t).defQueue =
      { b.defQueue with socket := 0, index := 0, headerlen := 0, datalen := 0 } := fun hsocket => by
    rw [defQueue_cleanup, if_pos hsocket]
  have hkept : b.defQueue.socket ≠ t → (b.cleanup t).defQueue = b.defQueue := fun hsocket => by
    rw [defQueue_cleanup, if_neg hsocket]
  refine ⟨(h.start.cleanup t).idle, fun hu => ?_, distinct_cleanup h.distinct, ?_, h.le,
    fun hown => ?_, fun hshared => ?_⟩
  · rw [find_cleanup h.distinct, find_cleanup h.start.distinct, h.frame hu]
  · rcases hq : b.find s with _ | q
    · have hheader := queueOf_of_none hq ▸ h.header
      rw [queueOf_of_none (hfind.trans hq)]
      by_cases hsocket : b.defQueue.socket = t
      -- the default queue is the other socket's only while nothing has been read
      · obtain ⟨rfl, -, hcase⟩ := h.shared hq
        rcases hcase with heq | ⟨-, rfl⟩
        · exact absurd (hsocket.symm.trans heq) ht
        · rw [hreset hsocket]
          exact ⟨rfl, rfl, rfl, hheader.fixed, hheader.buflen⟩
      · rw [hkept hsocket]
        exact hheader
    · rw [queueOf_of_find (hfind.trans hq)]
      exact queueOf_of_find hq ▸ h.header
  · rw [hfind] at hown
    obtain ⟨hzero, hheader, hdatalen⟩ := h.own hown
    by_cases hsocket : b.defQueue.socket = t
    · rw [hreset hsocket]
      exact ⟨rfl, ⟨rfl, rfl, rfl, hheader.fixed, hheader.buflen⟩, rfl⟩
    · rw [hkept hsocket]
      exact ⟨hzero, hheader, hdatalen⟩
  · rw [hfind] at hshared
    obtain ⟨hk, hdatalen, hcase⟩ := h.shared hshared
    by_cases hsocket : b.defQueue.socket = t
    · rcases hcase with heq | ⟨-, hnil⟩
      · exact absurd (hsocket.symm.trans heq) ht
      · rw [hreset hsocket]
        exact ⟨hk, rfl, Or.inr ⟨rfl, hnil⟩⟩
    · rw [hkept hsocket]
      exact ⟨hk, hdatalen, hcase⟩

/-- Writing to the queue that the socket uses. -/
theorem Reading.setQueueOf {q : SocketQueue} {k' : ℕ} {hd' : List UInt8} (hq : q.HasHeader k' hd')
    (hle : k' ≤ hd'.length) (hown : b.find s ≠ none → q.socket = s)
    (hshared : b.find s = none → k' = hd'.length ∧ q.datalen = 0 ∧
    (q.socket = s ∨ q.socket = 0 ∧ hd' = [])) :
    Reading b₀ (b.setQueueOf s q) s k' hd' ∧ (b.setQueueOf s q).queueOf s = q := by
  rcases hfind : b.find s with _ | q'
  · have hqueue : (b.setQueueOf s q).queueOf s = q := by
      rw [setQueueOf_of_none hfind]
      exact queueOf_of_none (by exact hfind)
    rw [setQueueOf_of_none hfind] at hqueue ⊢
    refine ⟨⟨h.start, h.frame,
      h.distinct, by rw [hqueue]; exact hq, hle, ?_, fun _ => hshared hfind⟩, hqueue⟩
    exact fun hne => absurd (by exact hfind) hne
  · have hsocket : q.socket = s := hown (by rw [hfind]; exact Option.some_ne_none _)
    have hset : ∀ {t}, (b.setQueueOf s q).find t = if t = s then some q else b.find t :=
      find_setQueueOf hfind hsocket
    have hqueue : (b.setQueueOf s q).queueOf s = q := queueOf_of_find (by rw [hset, if_pos rfl])
    refine ⟨⟨h.start, ?_,
      distinct_setQueueOf h.distinct hown, by rw [hqueue]; exact hq, hle, ?_, ?_⟩, hqueue⟩
    · intro t ht
      rw [hset, if_neg ht, h.frame ht]
    · intro _
      rw [setQueueOf_of_find hfind]
      exact h.own (by rw [hfind]; exact Option.some_ne_none _)
    · intro hnone
      rw [hset, if_pos rfl] at hnone
      cases hnone

/-- A byte that was queued is read again. -/
theorem Reading.getQueuedChar_queued (hk : k < hd.length) :
    ∃ b', b.getQueuedChar s = .ok (.complete hd[k], b') ∧ Reading b₀ b' s (k + 1) hd ∧
      b'.queueOf s = { b.queueOf s with index := k + 1 } := by
  rcases hfind : b.find s with _ | q
  · obtain ⟨rfl, -, -⟩ := h.shared hfind
    exact absurd hk (lt_irrefl _)
  · have hqueue := queueOf_of_find hfind
    have hsocket := socket_of_find hfind
    have hhd := hqueue ▸ h.header
    have hchar : q.fixedHeader.getD k none = some hd[k] := by
      have hget : (q.fixedHeader.take hd.length)[k]? = (hd.map some)[k]? := by rw [hhd.header]
      rw [List.getElem?_take_of_lt hk, List.getElem?_map, List.getElem?_eq_getElem hk] at hget
      rw [List.getD_eq_getElem?_getD, hget]
      rfl
    have hq : ({ q with index := k + 1 } : SocketQueue).HasHeader (k + 1) hd :=
      ⟨rfl, hhd.header, hhd.headerlen, hhd.fixed, hhd.buflen⟩
    obtain ⟨hreading, hset⟩ := h.setQueueOf hq hk (fun _ => hsocket)
      (fun hnone => absurd hnone (by rw [hfind]; exact Option.some_ne_none _))
    refine ⟨_, ?_, hreading, by rw [hset, hqueue]⟩
    simp only [getQueuedChar, hfind, hhd.index, hhd.headerlen, if_pos hk, hchar]

/-- There is no queued byte that was not read again. -/
theorem Reading.getQueuedChar_none (hk : k = hd.length) (hlen : hd.length ≤ 4) :
    b.getQueuedChar s = .ok (.interrupted, b) := by
  rcases hfind : b.find s with _ | q
  · simp only [getQueuedChar, hfind]
  · have hhd := queueOf_of_find hfind ▸ h.header
    simp only [getQueuedChar, hfind, hhd.index, hhd.headerlen]
    rw [if_neg (by omega), if_neg (by omega)]

/-- A byte of a header is put into the queue of the socket. -/
theorem Reading.queueChar_eq (hs : s ≠ 0) (hlen : k ≤ 4) (c : UInt8) :
    b.queueChar s c = b.setQueueOf s { b.queueOf s with
      socket := s, fixedHeader := (b.queueOf s).fixedHeader.set k (some c),
      index := k + 1, headerlen := k + 1 } := by
  have hle : ¬ 4 < k := Nat.not_lt.mpr hlen
  rcases hfind : b.find s with _ | q
  · have hqueue := queueOf_of_none hfind
    have hindex : b.defQueue.index = k := hqueue ▸ h.header.index
    obtain ⟨-, hdatalen, hcase⟩ := h.shared hfind
    rw [setQueueOf_of_none hfind, hqueue]
    rcases hcase with hsocket | ⟨hzero, rfl⟩
    · simp only [SocketBuffer.queueChar, hfind, hqueue, hsocket, hs, hindex, hle, ne_eq,
        not_true_eq_false,
        not_false_eq_true, and_false, if_false, or_self]
      rw [setQueueOf_of_none hfind]
    · obtain rfl : k = 0 := (h.shared hfind).1
      have hfind' : ∀ d, (⟨d, b.queues⟩ : SocketBuffer).find s = none := fun _ => hfind
      simp only [SocketBuffer.queueChar, hfind, hzero, ne_eq, not_true_eq_false,
        not_false_eq_true, and_self, if_true, queueOf_of_none (hfind' _)]
      rw [if_neg (by simp), setQueueOf_of_none (hfind' _), hdatalen]
  · have hqueue := queueOf_of_find hfind
    have hsocket := socket_of_find hfind
    have hindex : q.index = k := hqueue ▸ h.header.index
    have hne : ¬ b.find s = none := by
      rw [hfind]
      exact Option.some_ne_none _
    simp only [SocketBuffer.queueChar, hne, hqueue, hindex, hle, ne_eq, not_false_eq_true,
      not_true_eq_false,
      false_and, if_false, or_self, hsocket]

/-- A byte of the header is queued. -/
theorem Reading.queueChar (hs : s ≠ 0) (hk : k = hd.length) (hlen : k ≤ 4) (c : UInt8) :
    Reading b₀ (b.queueChar s c) s (k + 1) (hd ++ [c]) ∧
      (b.queueChar s c).queueOf s = { b.queueOf s with
        socket := s, fixedHeader := (b.queueOf s).fixedHeader.set k (some c),
        index := k + 1, headerlen := k + 1 } := by
  have hhd := h.header
  have hheader : ((b.queueOf s).fixedHeader.set k (some c)).take (hd ++ [c]).length =
      (hd ++ [c]).map some := by
    rw [List.length_append, List.length_singleton, hk, take_succ_set (by rw [hhd.fixed]; omega),
      hhd.header,
      List.map_append, List.map_singleton]
  have hq : ({ b.queueOf s with
      socket := s, fixedHeader := (b.queueOf s).fixedHeader.set k (some c),
      index := k + 1, headerlen := k + 1 } : SocketQueue).HasHeader (k + 1) (hd ++ [c]) :=
    ⟨rfl, hheader, by simp [hk], by simp [hhd.fixed], hhd.buflen⟩
  rw [h.queueChar_eq hs hlen c]
  refine h.setQueueOf hq (by simp [hk]) (fun _ => rfl) fun hnone => ⟨by simp [hk], ?_, Or.inl rfl⟩
  rw [queueOf_of_none hnone]
  exact (h.shared hnone).2.1

/-- The buffer is made large enough. -/
theorem Reading.getQueuedData (hdata : (b.queueOf s).HasData data) {n : ℕ}
    (hroom : data ≠ [] → n ≤ (b.queueOf s).buflen) :
    ∃ b', b.getQueuedData s n = (data.length, b') ∧ Reading b₀ b' s k hd ∧
      (b'.queueOf s).HasData data ∧ n ≤ (b'.queueOf s).buflen := by
  have hlen : (if b.find s = none then 0 else (b.queueOf s).datalen) = data.length := by
    split
    · next hnone =>
        rw [← hdata.datalen, queueOf_of_none hnone]
        exact (h.shared hnone).2.1.symm
    · exact hdata.datalen
  by_cases hgrow : (b.queueOf s).buflen < n
  · have hnil : data = [] := by
      by_contra hne
      exact absurd (hroom hne) (Nat.not_le.mpr hgrow)
    have hzero : ¬ 0 < (b.queueOf s).datalen := by simp [hdata.datalen, hnil]
    have hq : ({ b.queueOf s with
        buf := (b.queueOf s).buf.take n ++ List.replicate (n - (b.queueOf s).buf.length) none,
        buflen := n } : SocketQueue).HasHeader k hd := by
      refine ⟨h.header.index, h.header.header, h.header.headerlen, h.header.fixed, ?_⟩
      simp only [List.length_append, List.length_take, List.length_replicate]
      omega
    obtain ⟨hreading, hset⟩ := h.setQueueOf hq h.le (fun hne => socket_queueOf hne)
      (fun hnone => by
        rw [queueOf_of_none hnone]
        exact h.shared hnone)
    refine ⟨_, ?_, hreading, ?_, by rw [hset]⟩
    · simp only [SocketBuffer.getQueuedData, hlen]
      rw [if_pos hgrow, if_neg hzero]
    · rw [hset, hnil]
      exact ⟨rfl, by rw [hdata.datalen, hnil]⟩
  · refine ⟨b, ?_, h, hdata, Nat.not_lt.mp hgrow⟩
    simp only [SocketBuffer.getQueuedData, hlen]
    rw [if_neg hgrow]

end Reading

end SocketBuffer

/-! ## What comes from the network -/

/-- The bytes that a socket has for its reader. -/
def Arrival.stream : List Arrival → List UInt8
  | [] => []
  | .chunk c cs :: rest => c :: cs ++ stream rest
  | _ :: rest => stream rest

/-- The stream neither ends nor fails. -/
def Arrival.Open (arrivals : List Arrival) : Prop := .closed ∉ arrivals ∧ .failed ∉ arrivals

/-- `recv` takes its bytes from the front of the stream. -/
theorem Arrival.recv_bytes {n : ℕ} (hn : 0 < n) {arrivals rest : List Arrival} {bs : List UInt8}
    (h : Arrival.recv n arrivals = (.bytes bs, rest)) :
    bs ≠ [] ∧ bs.length ≤ n ∧ Arrival.stream arrivals = bs ++ Arrival.stream rest := by
  rcases arrivals with _ | ⟨⟨c, cs⟩ | _ | _ | _, arrivals⟩
  · cases h
  · simp only [Arrival.recv] at h
    cases h
    refine ⟨?_, List.length_take_le _ _, ?_⟩
    · cases n with
      | zero => exact absurd hn (lt_irrefl 0)
      | succ n => exact List.cons_ne_nil _ _
    · have hsplit := List.take_append_drop n (c :: cs)
      split
      · next hdrop =>
          rw [hdrop, List.append_nil] at hsplit
          rw [hsplit, Arrival.stream]
      · next d ds hdrop =>
          rw [hdrop] at hsplit
          rw [Arrival.stream, Arrival.stream, ← List.append_assoc, hsplit]
  · cases h
  · cases h
  · cases h

/-- What else `recv` does leaves the stream as it is. -/
theorem Arrival.recv_stream {n : ℕ} {arrivals rest : List Arrival} {res : Recv}
    (h : Arrival.recv n arrivals = (res, rest)) (hres : ∀ bs, res ≠ .bytes bs) :
    Arrival.stream arrivals = Arrival.stream rest := by
  rcases arrivals with _ | ⟨⟨c, cs⟩ | _ | _ | _, arrivals⟩ <;> cases h
  case cons.chunk.refl => exact absurd rfl (hres _)
  all_goals rfl

/-- While a connection stays open, `recv` neither ends nor fails. -/
theorem Arrival.Open.recv {n : ℕ} {arrivals rest : List Arrival} {res : Recv}
    (ho : Arrival.Open arrivals)
    (h : Arrival.recv n arrivals = (res, rest)) :
    Arrival.Open rest ∧ res ≠ .closed ∧ res ≠ .failed := by
  obtain ⟨hclosed, hfailed⟩ := ho
  rcases arrivals with _ | ⟨⟨c, cs⟩ | _ | _ | _, arrivals⟩
  · cases h
    exact ⟨⟨hclosed, hfailed⟩, by simp, by simp⟩
  · have hrest : Arrival.Open arrivals :=
      ⟨fun hm => hclosed (List.mem_cons_of_mem _ hm), fun hm => hfailed (List.mem_cons_of_mem _ hm)⟩
    simp only [Arrival.recv] at h
    cases h
    refine ⟨?_, by simp, by simp⟩
    split
    · exact hrest
    · exact ⟨by simpa using hrest.1, by simpa using hrest.2⟩
  · cases h
    exact ⟨⟨fun hm => hclosed (List.mem_cons_of_mem _ hm),
      fun hm => hfailed (List.mem_cons_of_mem _ hm)⟩,
      by simp, by simp⟩
  · exact absurd List.mem_cons_self hclosed
  · exact absurd List.mem_cons_self hfailed

namespace Reader

/-- Reading from `s` took the bytes `bs` from its stream, and left the other sockets alone. -/
structure Took (r r' : Reader) (s : CInt) (bs : List UInt8) : Prop where
  stream : Arrival.stream (r.net s) = bs ++ Arrival.stream (r'.net s)
  others : ∀ {t}, t ≠ s → r'.net t = r.net t
  isOpen : Arrival.Open (r.net s) → Arrival.Open (r'.net s)

theorem Took.refl {r r' : Reader} (h : r'.net = r.net) (s : CInt) : Took r r' s [] :=
  ⟨by rw [h, List.nil_append], fun _ => by rw [h], fun ho => by rw [h]; exact ho⟩

/-- One read after the other. -/
theorem Took.trans {r r' r'' : Reader} {s : CInt} {bs cs : List UInt8} (h : Took r r' s bs)
    (h' : Took r' r'' s cs) : Took r r'' s (bs ++ cs) :=
  ⟨by rw [h.stream, h'.stream, List.append_assoc], fun ht => (h'.others ht).trans (h.others ht),
    fun ho => h'.isOpen (h.isOpen ho)⟩

/-- Nothing is taken from a stream that has ended. -/
theorem Took.of_stream_nil {r r' : Reader} {s : CInt} {bs : List UInt8} (h : Took r r' s bs)
    (hnil : Arrival.stream (r.net s) = []) : bs = [] ∧ Arrival.stream (r'.net s) = [] :=
  List.append_eq_nil_iff.mp (h.stream.symm.trans hnil)

/-- What `recv` does to the stream of the socket. -/
theorem recv_spec {r r' : Reader} {s : CInt} {n : ℕ} (hn : 0 < n) {res : Recv}
    (h : r.recv s n = (res, r')) :
    r'.buffers = r.buffers ∧
      match res with
      | .bytes bs => bs ≠ [] ∧ bs.length ≤ n ∧ Took r r' s bs
      | .wouldBlock => Took r r' s []
      | _ => ¬ Arrival.Open (r.net s) ∧ ∀ {t}, t ≠ s → r'.net t = r.net t := by
  rcases hrecv : Arrival.recv n (r.net s) with ⟨res', rest⟩
  simp only [Reader.recv, hrecv] at h
  cases h
  have hothers : ∀ {t}, t ≠ s → (if t = s then rest else r.net t) = r.net t := fun ht => if_neg ht
  have hopen : Arrival.Open (r.net s) → Arrival.Open (if s = s then rest else r.net s) := by
    intro ho
    rw [if_pos rfl]
    exact (ho.recv hrecv).1
  refine ⟨rfl, ?_⟩
  cases res with
  | bytes bs =>
      obtain ⟨hne, hle, hstream⟩ := Arrival.recv_bytes hn hrecv
      exact ⟨hne, hle, by simpa using hstream, hothers, hopen⟩
  | wouldBlock =>
      have hstream := Arrival.recv_stream hrecv nofun
      exact ⟨by simpa using hstream, hothers, hopen⟩
  | closed => exact ⟨fun ho => (ho.recv hrecv).2.1 rfl, hothers⟩
  | failed => exact ⟨fun ho => (ho.recv hrecv).2.2 rfl, hothers⟩

/-! ## One attempt to read -/

section Attempt

variable {b₀ : SocketBuffer} {r : Reader} {s : CInt}

/-- `Socket_getch` gives the next byte of the header: a queued one, or one from the stream, which it
queues; or it gives none. -/
theorem getch_spec {k : ℕ} {hd : List UInt8} (h : SocketBuffer.Reading b₀ r.buffers s k hd)
    (hs : s ≠ 0)
    (hk : k ≤ 4) :
    (∃ (hlt : k < hd.length) (r' : Reader), r.getch s = .ok (.complete hd[k], r') ∧ Took r r' s [] ∧
      SocketBuffer.Reading b₀ r'.buffers s (k + 1) hd ∧
      (r.buffers.queueOf s).SameData (r'.buffers.queueOf s)) ∨
    k = hd.length ∧
      ((∃ c r', r.getch s = .ok (.complete c, r') ∧ Took r r' s [c] ∧
        SocketBuffer.Reading b₀ r'.buffers s (k + 1) (hd ++ [c]) ∧
        (r.buffers.queueOf s).SameData (r'.buffers.queueOf s)) ∨
      (∃ r', r.getch s = .ok (.interrupted, r') ∧ Took r r' s [] ∧
        r'.buffers = r.buffers.interrupted s 0) ∨
      (∃ r', r.getch s = .ok (.error, r') ∧ ¬ Arrival.Open (r.net s) ∧
      (∀ {t}, t ≠ s → r'.net t = r.net t) ∧
        r'.buffers = r.buffers)) := by
  rcases Nat.lt_or_eq_of_le h.le with hlt | heq
  · left
    obtain ⟨b', hget, hreading, hqueue⟩ := h.getQueuedChar_queued hlt
    refine ⟨hlt, { r with buffers := b' }, ?_, ⟨rfl, fun _ => rfl, id⟩, hreading, ?_⟩
    · simp only [getch, hget]
      rfl
    · simp only [hqueue]
      exact ⟨rfl, rfl, rfl⟩
  · right
    refine ⟨heq, ?_⟩
    -- everything that was queued is used up, and the stream is asked for one byte
    have hget := h.getQueuedChar_none heq (heq ▸ hk)
    rcases hrecv : r.recv s 1 with ⟨res, r'⟩
    obtain ⟨hbuffers, hspec⟩ := recv_spec Nat.one_pos hrecv
    cases res with
    | bytes bs =>
        obtain ⟨hne, hle, htook⟩ := hspec
        obtain ⟨c, rfl⟩ : ∃ c, bs = [c] := List.length_eq_one_iff.mp
          (le_antisymm hle (List.length_pos_iff.mpr hne))
        obtain ⟨hreading, hqueue⟩ := h.queueChar hs heq hk c
        refine Or.inl ⟨c, { r' with buffers := r'.buffers.queueChar s c }, ?_,
          ⟨htook.stream, htook.others,
          htook.isOpen⟩, ?_, ?_⟩
        · simp only [getch, hget]
          simp only [bind, Except.bind, hrecv]
          rfl
        · rw [hbuffers]
          exact hreading
        · simp only [hbuffers, hqueue]
          exact ⟨rfl, rfl, rfl⟩
    | wouldBlock =>
        refine Or.inr (Or.inl ⟨{ r' with buffers := r'.buffers.interrupted s 0 }, ?_, ⟨hspec.stream,
          hspec.others, hspec.isOpen⟩, ?_⟩)
        · simp only [getch, hget]
          simp only [bind, Except.bind, hrecv]
          rfl
        · simp only [hbuffers]
    | closed | failed =>
        refine Or.inr (Or.inr ⟨r', ?_, hspec.1, hspec.2, hbuffers⟩)
        simp only [getch, hget]
        simp only [bind, Except.bind, hrecv]
        rfl

section Loop

variable {left : ℕ} {multiplier : CInt} {value : CULong} {r' : Reader}

/-- A byte has come: the length goes on, or is complete. -/
theorem mqttPacketDecodeLoop_complete {c : UInt8} (h : r.getch s = .ok (.complete c, r')) :
    mqttPacketDecodeLoop s (left + 1) multiplier value r =
      if c &&& 128 ≠ 0 then mqttPacketDecodeLoop s left (multiplier * 128)
        (value + CInt.toULong ((c &&& 127).toBitVec.zeroExtend 32 * multiplier)) r'
      else .ok (.complete (value + CInt.toULong ((c &&& 127).toBitVec.zeroExtend 32 * multiplier)),
        r') := by
  rw [mqttPacketDecodeLoop, h]
  rfl

/-- No byte has come: the length is interrupted. -/
theorem mqttPacketDecodeLoop_interrupted (h : r.getch s = .ok (.interrupted, r')) :
    mqttPacketDecodeLoop s (left + 1) multiplier value r = .ok (.interrupted, r') := by
  rw [mqttPacketDecodeLoop, h]
  rfl

/-- The connection has ended in the length. -/
theorem mqttPacketDecodeLoop_error (h : r.getch s = .ok (.error, r')) :
    mqttPacketDecodeLoop s (left + 1) multiplier value r = .ok (.error, r') := by
  rw [mqttPacketDecodeLoop, h]
  rfl

end Loop

/-- **Reading the length.**  It goes on from the digits that have come to the end of the length, to
where there is none left, or to where it is too long. -/
theorem mqttPacketDecodeLoop_spec {left : ℕ} {multiplier : CInt} {value : CULong} {aHeader : UInt8}
    {ds e data : List UInt8} (hlen : ds.length + left = 4)
    (hsofar : ∀ x, decode (ds ++ x) = decodeLoop ds.length multiplier value x)
    (h : SocketBuffer.Reading b₀ r.buffers s (ds.length + 1) (aHeader :: (ds ++ e))) (hs : s ≠ 0)
    (hdata : (r.buffers.queueOf s).HasData data)
    (hbegin : left ≠ 0 → Beginning (r.buffers.queueOf s).buflen (aHeader :: (ds ++ e)) data)
    (hfull : left = 0 → e = [] ∧ data = []) :
    (∃ n bs r', mqttPacketDecodeLoop s left multiplier value r = .ok (.complete n, r') ∧
      Took r r' s bs ∧
      decode (ds ++ e ++ bs) = .done n [] ∧ (bs ≠ [] → data = []) ∧
      SocketBuffer.Reading b₀ r'.buffers s (ds ++ e ++ bs).length.succ
        (aHeader :: (ds ++ e ++ bs)) ∧
      (r.buffers.queueOf s).SameData (r'.buffers.queueOf s)) ∨
    (∃ bs r', mqttPacketDecodeLoop s left multiplier value r = .ok (.interrupted, r') ∧
      Took r r' s bs ∧
      data = [] ∧ SocketBuffer.After b₀ r'.buffers s (aHeader :: (ds ++ e ++ bs)) ∧
      decode (ds ++ e ++ bs) = .more) ∨
    (∃ r', mqttPacketDecodeLoop s left multiplier value r = .ok (.error, r') ∧
      (∀ {t}, t ≠ s → r'.net t = r.net t) ∧ (∃ k hd, SocketBuffer.Reading b₀ r'.buffers s k hd) ∧
      (¬ Arrival.Open (r.net s) ∨
        ∃ bs, Took r r' s bs ∧ data = [] ∧ decode (ds ++ e ++ bs) = .bad)) := by
  induction left generalizing r multiplier value ds e with
  | zero =>
      obtain ⟨rfl, rfl⟩ := hfull rfl
      refine Or.inr (Or.inr ⟨r, rfl, fun _ => rfl, ⟨_, _, h⟩,
        Or.inr ⟨[], ⟨rfl, fun _ => rfl, id⟩, rfl, ?_⟩⟩)
      have hbad := hsofar []
      rw [decodeLoop_of_le (by omega)] at hbad
      simpa using hbad
  | succ left ih =>
      replace hbegin := hbegin (Nat.succ_ne_zero left)
      have hnext : ∀ c, c &&& 128 ≠ 0 → ∀ x, decode (ds ++ [c] ++ x) = decodeLoop (ds ++ [c]).length
          (multiplier * 128) (value +
            CInt.toULong ((c &&& 127).toBitVec.zeroExtend 32 * multiplier)) x := by
        intro c hc x
        rw [List.append_assoc, hsofar, List.cons_append, decodeLoop_cons (by omega), if_pos hc,
          List.length_append, List.length_singleton, List.nil_append]
      have hlast : ∀ c, ¬ c &&& 128 ≠ 0 → decode (ds ++ [c]) =
          .done (value + CInt.toULong ((c &&& 127).toBitVec.zeroExtend 32 * multiplier)) [] := by
        intro c hc
        rw [hsofar, decodeLoop_cons (by omega), if_neg hc]
      rcases getch_spec h hs (by omega) with ⟨hlt, r', hget, htook, hreading, hsame⟩ | ⟨hk, hcase⟩
      · -- a queued digit
        obtain ⟨c, e, rfl⟩ : ∃ c e', e = c :: e' := by
          cases e with
          | nil => simp at hlt
          | cons c e => exact ⟨c, e, rfl⟩
        have hc' : (aHeader :: (ds ++ c :: e))[ds.length + 1] = c := by simp
        have happ : ds ++ c :: e = ds ++ [c] ++ e := by simp
        rw [hc'] at hget
        rw [happ] at hreading hbegin ⊢
        rw [mqttPacketDecodeLoop_complete hget]
        by_cases hc : c &&& 128 ≠ 0
        · rw [if_pos hc]
          have hfull' : left = 0 → e = [] ∧ data = [] := by
            rintro rfl
            have hbad := hnext c hc e
            rw [decodeLoop_of_le (by simp; omega)] at hbad
            cases hbegin with
            | header h =>
                rw [hbad] at h
                cases h
            | data h hlt hroom =>
                rw [hbad] at h
                cases h
          have hrest := ih (by simp; omega) (hnext c hc) (by simpa using hreading)
            (hsame.hasData hdata) (fun _ => hsame.buflen ▸ hbegin) hfull'
          rcases hrest with ⟨n, bs, r'', hloop, htook', hn⟩ | ⟨bs, r'', hloop, htook', hn⟩ |
              ⟨r'', hloop, hnet, hex, hn⟩
          · exact Or.inl ⟨n, bs, r'', hloop, htook.trans htook', hn.1, hn.2.1, hn.2.2.1,
              hsame.trans hn.2.2.2⟩
          · exact Or.inr (Or.inl ⟨bs, r'', hloop, htook.trans htook', hn⟩)
          · refine Or.inr (Or.inr ⟨r'', hloop, fun ht => (hnet ht).trans (htook.others ht), hex,
              ?_⟩)
            rcases hn with hopen | ⟨bs, htook', hn⟩
            · exact Or.inl fun ho => hopen (htook.isOpen ho)
            · exact Or.inr ⟨bs, htook.trans htook', hn⟩
        · rw [if_neg hc]
          obtain rfl := hbegin.eq_nil_of_done (hlast c hc)
          refine Or.inl ⟨_, [], r', rfl,
            htook, by simpa using hlast c hc, fun hne => absurd rfl hne, ?_, hsame⟩
          simpa using hreading
      · -- no queued digit is left
        have he : e = [] := by
          simp at hk
          exact hk
        subst he
        have hmore : decode (ds ++ []) = .more := by
          rw [hsofar, decodeLoop_nil (by omega)]
        obtain rfl := hbegin.data_eq_nil hmore
        rcases hcase with ⟨c, r', hget, htook, hreading, hsame⟩ | ⟨r', hget, htook, hbuffers⟩ |
            ⟨r', hget, hopen, hnet, hbuffers⟩
        · rw [mqttPacketDecodeLoop_complete hget]
          by_cases hc : c &&& 128 ≠ 0
          · rw [if_pos hc]
            have hbegin' : left ≠ 0 → Beginning (r'.buffers.queueOf s).buflen
                (aHeader :: (ds ++ [c] ++ [])) [] := by
              intro hleft
              refine .header ?_
              rw [hnext c hc, decodeLoop_nil (by simp; omega)]
            have hrest := ih (by simp; omega) (hnext c hc) (by simpa using hreading)
              (hsame.hasData hdata) hbegin' (fun _ => ⟨rfl, rfl⟩)
            simp only [List.append_nil] at hrest ⊢
            rcases hrest with ⟨n, bs, r'', hloop, htook', hn⟩ | ⟨bs, r'', hloop, htook', hn⟩ |
                ⟨r'', hloop, hnet, hex, hn⟩
            · have hbs : ds ++ [c] ++ bs = ds ++ ([c] ++ bs) := List.append_assoc _ _ _
              rw [hbs] at hn
              exact Or.inl ⟨n, [c] ++ bs, r'', hloop, htook.trans htook', hn.1, fun _ => trivial,
                hn.2.2.1,
                hsame.trans hn.2.2.2⟩
            · have hbs : ds ++ [c] ++ bs = ds ++ ([c] ++ bs) := List.append_assoc _ _ _
              rw [hbs] at hn
              exact Or.inr (Or.inl ⟨[c] ++ bs, r'', hloop, htook.trans htook', hn⟩)
            · refine Or.inr (Or.inr ⟨r'', hloop, fun ht => (hnet ht).trans (htook.others ht), hex,
                ?_⟩)
              rcases hn with hopen | ⟨bs, htook', hnil, hn⟩
              · exact Or.inl fun ho => hopen (htook.isOpen ho)
              · have hbs : ds ++ [c] ++ bs = ds ++ ([c] ++ bs) := List.append_assoc _ _ _
                rw [hbs] at hn
                exact Or.inr ⟨[c] ++ bs, htook.trans htook', hnil, hn⟩
          · rw [if_neg hc]
            refine Or.inl ⟨_, [c], r', rfl,
              htook, by simpa using hlast c hc, fun _ => rfl, ?_, hsame⟩
            simpa using hreading
        · refine Or.inr (Or.inl ⟨[], r', mqttPacketDecodeLoop_interrupted hget, htook, rfl,
            ?_, by simpa using hmore⟩)
          rw [hbuffers]
          have hstored : (r.buffers.queueOf s).buf.take ([] : List UInt8).length =
              ([] : List UInt8).map some := rfl
          simpa using h.interrupted hstored hbegin
        · exact Or.inr (Or.inr ⟨r', mqttPacketDecodeLoop_error hget, hnet, ⟨_, _, hbuffers ▸ h⟩,
            Or.inl hopen⟩)

theorem values_map_some (bs : List UInt8) : values (bs.map some) = .ok bs := by
  induction bs with
  | nil => rfl
  | cons c bs ih =>
      rw [List.map_cons, values, ih]
      rfl

/-- What was stored follows what was there. -/
theorem take_store {buf : List Cell} {data bs : List UInt8}
    (hstored : buf.take data.length = data.map some) :
    (buf.take data.length ++ bs.map some ++ buf.drop (data.length + bs.length)).take
      (data ++ bs).length =
      (data ++ bs).map some := by
  rw [hstored, ← List.map_append, List.take_append_of_le_length (by simp)]
  exact List.take_of_length_le (by simp)

/-- Bytes that have come are stored after the ones that were there. -/
theorem store_spec {k : ℕ} {hd data : List UInt8} (h : SocketBuffer.Reading b₀ r.buffers s k hd)
    (hdata : (r.buffers.queueOf s).HasData data) {n : ℕ} (hn : n ≤ (r.buffers.queueOf s).buflen)
    (bs : List UInt8) (hle : data.length + bs.length ≤ n) :
    ∃ r', r.store s data.length bs = .ok r' ∧ r'.net = r.net ∧
      SocketBuffer.Reading b₀ r'.buffers s k hd ∧
      (r'.buffers.queueOf s).buf.take (data ++ bs).length = (data ++ bs).map some ∧
      n ≤ (r'.buffers.queueOf s).buflen := by
  have hbuf : n ≤ (r.buffers.queueOf s).buf.length := le_trans hn h.header.buflen
  have hq : ({ r.buffers.queueOf s with
      buf := (r.buffers.queueOf s).buf.take data.length ++ bs.map some ++
        (r.buffers.queueOf s).buf.drop (data.length + bs.length) } : SocketQueue).HasHeader k
        hd := by
    refine ⟨h.header.index, h.header.header, h.header.headerlen, h.header.fixed, ?_⟩
    have hbuflen := h.header.buflen
    simp only [List.length_append, List.length_take, List.length_map, List.length_drop]
    omega
  obtain ⟨hreading, hset⟩ := h.setQueueOf hq h.le SocketBuffer.socket_queueOf (fun hnone => by
    rw [SocketBuffer.queueOf_of_none hnone]
    exact h.shared hnone)
  refine ⟨{ r with buffers := r.buffers.setQueueOf s _ }, ?_, rfl, hreading, ?_, ?_⟩
  · simp only [store]
    rw [if_neg (by omega)]
  · simp only [hset]
    exact take_store hdata.stored
  · simp only [hset]
    exact hn

/-- **Reading the data.**  They are complete, or there are more of them, or the stream has ended. -/
theorem getdata_spec {aHeader : UInt8} {digits data : List UInt8} {n : CULong}
    (h : SocketBuffer.Reading b₀ r.buffers s digits.length.succ (aHeader :: digits))
    (hdecode : decode digits = .done n []) (hdata : (r.buffers.queueOf s).HasData data)
    (hroom : data ≠ [] → data.length < n.toNat ∧ n.toNat ≤ (r.buffers.queueOf s).buflen) :
    (∃ bs r', r.getdata s n.toNat = .ok (.complete ((data ++ bs).map some), r') ∧ Took r r' s bs ∧
      (data ++ bs).length = n.toNat ∧ SocketBuffer.After b₀ r'.buffers s []) ∨
    (∃ bs r', r.getdata s n.toNat = .ok (.interrupted, r') ∧ Took r r' s bs ∧
      (data ++ bs).length < n.toNat ∧
      SocketBuffer.After b₀ r'.buffers s (aHeader :: digits ++ (data ++ bs))) ∨
    (∃ r', r.getdata s n.toNat = .ok (.error, r') ∧ (∀ {t}, t ≠ s → r'.net t = r.net t) ∧
      (∃ k hd, SocketBuffer.Reading b₀ r'.buffers s k hd) ∧ ¬ Arrival.Open (r.net s)) := by
  by_cases hzero : n.toNat = 0
  -- a packet without data is complete, and the stream is not asked
  · have hnil : data = [] := by
      by_contra hne
      have hlt := (hroom hne).1
      omega
    refine Or.inl ⟨[], { r with buffers := r.buffers.complete s }, ?_, ⟨rfl, fun _ => rfl, id⟩, ?_,
      h.complete⟩
    · rw [getdata, if_pos hzero, hnil]
      rfl
    · rw [hnil, hzero]
      rfl
  · have hlt : data.length < n.toNat := by
      by_cases hne : data = []
      · rw [hne]
        exact Nat.pos_of_ne_zero hzero
      · exact (hroom hne).1
    obtain ⟨b', hget, hreading, hdata', hn⟩ := h.getQueuedData hdata fun hne => (hroom hne).2
    rcases hrecv : Reader.recv { r with buffers := b' } s (n.toNat - data.length) with ⟨res, r'⟩
    obtain ⟨hbuffers, hspec⟩ := recv_spec (by omega) hrecv
    simp only at hbuffers
    rw [getdata, if_neg hzero]
    simp only [hget, hrecv]
    cases res with
    | bytes bs =>
        obtain ⟨-, hle, htook⟩ := hspec
        rw [← hbuffers] at hreading hdata' hn
        obtain ⟨r'', hstore, hnet, hreading', hstored, hn'⟩ :=
          store_spec hreading hdata' hn bs (by omega)
        have htook' : Took r r'' s bs :=
          ⟨by rw [hnet]; exact htook.stream, fun ht => by rw [hnet]; exact htook.others ht,
            fun ho => by rw [hnet]; exact htook.isOpen ho⟩
        simp only [hstore]
        by_cases hcomplete : data.length + bs.length = n.toNat
        · refine Or.inl ⟨bs, { r'' with buffers := r''.buffers.complete s }, ?_,
            ⟨htook'.stream, htook'.others, htook'.isOpen⟩, by
            rw [List.length_append, hcomplete], hreading'.complete⟩
          simp only [bind, Except.bind, finishData, if_pos hcomplete]
          rw [← hstored, List.length_append, hcomplete]
          rfl
        · have hlt' : (data ++ bs).length < n.toNat := by
            rw [List.length_append]
            omega
          refine Or.inr (Or.inl ⟨bs,
            { r'' with buffers := r''.buffers.interrupted s (data ++ bs).length }, ?_,
            ⟨htook'.stream, htook'.others, htook'.isOpen⟩, hlt', ?_⟩)
          · simp only [bind, Except.bind, finishData, if_neg hcomplete, List.length_append]
            rfl
          · exact hreading'.interrupted hstored (.data hdecode hlt' fun _ => hn')
    | wouldBlock =>
        rw [← hbuffers] at hreading hdata' hn
        refine Or.inr (Or.inl ⟨[], { r' with buffers := r'.buffers.interrupted s data.length }, ?_,
          ⟨hspec.stream, hspec.others, hspec.isOpen⟩, by simpa using hlt, ?_⟩)
        · simp only [finishData, if_neg hlt.ne]
        · rw [List.append_nil]
          exact hreading.interrupted hdata'.stored (.data hdecode hlt fun _ => hn)
    | closed | failed =>
        exact Or.inr (Or.inr ⟨r', rfl, hspec.2, ⟨_, _, by rw [hbuffers]; exact hreading⟩, hspec.1⟩)

/-- What the bytes after a complete length make of the packet. -/
theorem parsePacket_of_decode {aHeader : UInt8} {digits data : List UInt8} {n : CULong}
    (h : decode digits = .done n []) : parsePacket (aHeader :: digits ++ data) =
      if n.toNat ≤ data.length then .done (aHeader, data.take n.toNat) (data.drop n.toNat)
      else .more := by
  have happ := decodeLoop_append 0 1 0 digits data
  rw [← decode, ← decode, h] at happ
  rcases happ with hmore | happ
  · cases hmore
  · rw [List.cons_append, parsePacket, happ]
    rfl

/-- A length that is too long makes the packet bad. -/
theorem parsePacket_of_decode_bad {aHeader : UInt8} {digits : List UInt8}
    (h : decode digits = .bad) :
    parsePacket (aHeader :: digits) = .bad := by
  rw [parsePacket, h]

/-- The outcome of one attempt to read from `s`, with the bytes `p` of the packet that had come. -/
inductive Attempted (r r' : Reader) (s : CInt) (p : List UInt8) :
    ReadResult (UInt8 × List UInt8) → Prop
  | complete {bs : List UInt8} {f : UInt8 × List UInt8} (took : Took r r' s bs)
      (parse : parsePacket (p ++ bs) = .done f [])
      (after : SocketBuffer.After r.buffers r'.buffers s []) :
      Attempted r r' s p (.complete f)
  | interrupted {bs : List UInt8} (took : Took r r' s bs) (parse : parsePacket (p ++ bs) = .more)
      (after : SocketBuffer.After r.buffers r'.buffers s (p ++ bs)) :
      Attempted r r' s p .interrupted
  | error {k : ℕ} {hd : List UInt8} (others : ∀ {t}, t ≠ s → r'.net t = r.net t)
      (reading : SocketBuffer.Reading r.buffers r'.buffers s k hd)
      (cause : ¬ Arrival.Open (r.net s) ∨ ∃ bs, Took r r' s bs ∧ parsePacket (p ++ bs) = .bad) :
      Attempted r r' s p .error

/-- Reading the rest of a packet whose header byte was read. -/
theorem readRest_spec {r₀ r : Reader} {aHeader : UInt8} {digits data b p : List UInt8}
    (h : SocketBuffer.Reading r₀.buffers r.buffers s 1 (aHeader :: digits)) (hs : s ≠ 0)
    (hdata : (r.buffers.queueOf s).HasData data)
    (hbegin : Beginning (r.buffers.queueOf s).buflen (aHeader :: digits) data)
    (hget : r₀.getch s = .ok (.complete aHeader, r)) (htook : Took r₀ r s b)
    (hp : p ++ b = aHeader :: digits ++ data) :
    ∃ res r', r₀.readPacket s = .ok (res, r') ∧ Attempted r₀ r' s p res := by
  have hread : SocketBuffer.Reading r₀.buffers r.buffers s (([] : List UInt8).length + 1)
      (aHeader :: ([] ++ digits)) := h
  have hsofar : ∀ x, decode ([] ++ x) = decodeLoop ([] : List UInt8).length 1 0 x := fun _ => rfl
  have hlen : ([] : List UInt8).length + 4 = 4 := rfl
  have hloop := mqttPacketDecodeLoop_spec hlen hsofar hread hs hdata (fun _ => hbegin)
    (fun h => absurd h (by decide))
  simp only [List.nil_append] at hloop
  rcases hloop with ⟨n, bs₁, r₁, hdecode, htook₁, hdone, hnil, hreading, hsame⟩ |
      ⟨bs₁, r₁, hdecode, htook₁, rfl, hafter, hmore⟩ |
        ⟨r₁, hdecode, hothers, ⟨k, hd, hreading⟩, hcause⟩
  · have hroom : data ≠ [] → data.length < n.toNat ∧ n.toNat ≤ (r₁.buffers.queueOf s).buflen := by
      intro hne
      obtain rfl : bs₁ = [] := by
        by_contra hbs
        exact hne (hnil hbs)
      cases hbegin with
      | header h => exact absurd rfl hne
      | data hn hlt hroom =>
          rw [List.append_nil, hn] at hdone
          cases hdone
          exact ⟨hlt, hsame.buflen ▸ hroom hne⟩
    have hbytes : ∀ bs, p ++ (b ++ (bs₁ ++ bs)) = aHeader :: (digits ++ bs₁) ++ (data ++ bs) := by
      intro bs
      -- there are data already only if the length was complete before
      have hcomm : data ++ bs₁ = bs₁ ++ data := by
        by_cases hbs : bs₁ = []
        · rw [hbs, List.append_nil, List.nil_append]
        · rw [hnil hbs, List.append_nil, List.nil_append]
      calc p ++ (b ++ (bs₁ ++ bs)) = p ++ b ++ bs₁ ++ bs := by simp only [List.append_assoc]
        _ = aHeader :: digits ++ (data ++ bs₁) ++ bs := by
          rw [hp, List.append_assoc (aHeader :: digits)]
        _ = aHeader :: (digits ++ bs₁) ++ (data ++ bs) := by
          rw [hcomm]
          simp only [List.append_assoc, List.cons_append]
    rcases getdata_spec hreading hdone (hsame.hasData hdata) hroom with
      ⟨bs₂, r₂, hgetdata, htook₂, hlen, hafter⟩ | ⟨bs₂, r₂, hgetdata, htook₂, hlt, hafter⟩ |
        ⟨r₂, hgetdata, hothers, ⟨k, hd, hreading'⟩, hopen⟩
    · refine ⟨.complete (aHeader, data ++ bs₂), r₂, ?_,
        .complete (htook.trans (htook₁.trans htook₂)) ?_ hafter⟩
      · simp only [readPacket, mqttPacketDecode, hget, bind, Except.bind]
        simp only [maxNoOfRemainingLengthBytes, hdecode, hgetdata, values_map_some]
        rfl
      · rw [hbytes, parsePacket_of_decode hdone, if_pos hlen.ge, List.take_of_length_le hlen.le,
          List.drop_of_length_le hlen.le]
    · refine ⟨.interrupted, r₂, ?_, .interrupted (htook.trans (htook₁.trans htook₂)) ?_ ?_⟩
      · simp only [readPacket, mqttPacketDecode, hget, bind, Except.bind]
        simp only [maxNoOfRemainingLengthBytes, hdecode, hgetdata]
        rfl
      · rw [hbytes, parsePacket_of_decode hdone, if_neg (Nat.not_le.mpr hlt)]
      · rw [hbytes]
        exact hafter
    · refine ⟨.error, r₂, ?_,
        .error (fun ht => ?_) hreading' (Or.inl fun ho => hopen (htook₁.isOpen (htook.isOpen ho)))⟩
      · simp only [readPacket, mqttPacketDecode, hget, bind, Except.bind]
        simp only [maxNoOfRemainingLengthBytes, hdecode, hgetdata]
        rfl
      · exact (hothers ht).trans ((htook₁.others ht).trans (htook.others ht))
  · have hbytes : p ++ (b ++ bs₁) = aHeader :: (digits ++ bs₁) := by
      rw [← List.append_assoc, hp, List.append_nil, List.cons_append]
    refine ⟨.interrupted, r₁, ?_, .interrupted (htook.trans htook₁) ?_ ?_⟩
    · simp only [readPacket, mqttPacketDecode, hget, bind, Except.bind]
      simp only [maxNoOfRemainingLengthBytes, hdecode]
      rfl
    · rw [hbytes, parsePacket, hmore]
    · rw [hbytes]
      exact hafter
  · refine ⟨.error, r₁, ?_, .error (fun ht => (hothers ht).trans (htook.others ht)) hreading ?_⟩
    · simp only [readPacket, mqttPacketDecode, hget, bind, Except.bind]
      simp only [maxNoOfRemainingLengthBytes, hdecode]
      rfl
    · rcases hcause with hopen | ⟨bs₁, htook₁, rfl, hbad⟩
      · exact Or.inl fun ho => hopen (htook.isOpen ho)
      · refine Or.inr ⟨b ++ bs₁, htook.trans htook₁, ?_⟩
        rw [← List.append_assoc, hp, List.append_nil, List.cons_append]
        exact parsePacket_of_decode_bad hbad

/-- **One attempt to read.**  The packet is complete, or more of it is in the queue of the socket,
or it cannot be read: the length is too long, or the stream has ended. -/
theorem readPacket_spec (hidle : r.buffers.Idle) (hs : s ≠ 0) :
    ∃ res r', r.readPacket s = .ok (res, r') ∧ Attempted r r' s (r.buffers.pending s) res := by
  obtain ⟨hd, data, hreading, hdata, hbegin, hpending⟩ := hidle.reading s
  rw [hpending]
  rcases getch_spec hreading hs (Nat.zero_le 4) with ⟨hlt, r', hget, htook, hreading', hsame⟩ |
    ⟨hk, hcase⟩
  · obtain ⟨aHeader, digits, rfl⟩ := List.exists_cons_of_ne_nil (List.length_pos_iff.mp hlt)
    exact readRest_spec hreading' hs (hsame.hasData hdata) (hsame.buflen ▸ hbegin) hget htook
      (List.append_nil _)
  · obtain rfl : hd = [] := List.length_eq_zero_iff.mp hk.symm
    obtain rfl : data = [] := by
      cases hbegin
      rfl
    rcases hcase with ⟨c, r', hget, htook, hreading', hsame⟩ | ⟨r', hget, htook, hbuffers⟩ |
        ⟨r', hget, hopen, hothers, hbuffers⟩
    · exact readRest_spec hreading' hs (hsame.hasData hdata) (.header rfl) hget htook rfl
    · refine ⟨.interrupted, r', ?_, .interrupted htook rfl ?_⟩
      · rw [readPacket, hget]
        rfl
      · rw [hbuffers]
        exact hreading.interrupted hdata.stored hbegin
    · refine ⟨.error, r', ?_, .error hothers (by rw [hbuffers]; exact hreading) (Or.inl hopen)⟩
      rw [readPacket, hget]
      rfl

end Attempt

end Reader

/-! ## Runs -/

/-- The packets that were read from a socket. -/
def packetsOf (s : CInt) (out : List (Option (CInt × ReadResult (UInt8 × List UInt8)))) :
    List (UInt8 × List UInt8) :=
  out.filterMap fun
    | some (t, .complete f) => if t = s then some f else none
    | _ => none

section PacketsOf

variable {s t : CInt}

theorem packetsOf_complete (s : CInt) (f : UInt8 × List UInt8) :
    packetsOf s [some (s, .complete f)] = [f] := by
  simp [packetsOf]

theorem packetsOf_interrupted (s t : CInt) : packetsOf s [some (t, .interrupted)] = [] := rfl

theorem packetsOf_error (s t : CInt) : packetsOf s [some (t, .error)] = [] := rfl

theorem packetsOf_none (s : CInt) : packetsOf s [none] = [] := rfl

/-- What is read from another socket is no packet of this one. -/
theorem packetsOf_of_ne (hst : s ≠ t) (res : ReadResult (UInt8 × List UInt8)) :
    packetsOf s [some (t, res)] = [] := by
  cases res <;> simp [packetsOf, Ne.symm hst]

theorem packetsOf_append (s : CInt)
    (o o' : List (Option (CInt × ReadResult (UInt8 × List UInt8)))) :
    packetsOf s (o ++ o') = packetsOf s o ++ packetsOf s o' := List.filterMap_append

end PacketsOf

/-- What has become of a stream that began with `stream` on the socket `s`, from which the packets
`fs` were read: it is still read, or it is no more, because of an error or because it was closed. -/
inductive Reader.Progress (stream : List UInt8) (isOpen : Prop) (r : Reader.State) (s : CInt)
    (fs : List (UInt8 × List UInt8)) : Prop
  | live {taken : List UInt8} (split : stream = taken ++ Arrival.stream (r.net s))
      (frames : packetFramer.frames taken = (fs, r.buffers.pending s))
      (open_ : isOpen → Arrival.Open (r.net s))
  | dead {taken rest : List UInt8} (split : stream = taken ++ rest)
      (frames : (packetFramer.frames taken).1 = fs)
      (ended : s ∈ r.failed ∨ Arrival.stream (r.net s) = [] ∧ r.buffers.pending s = [])
      (cause : ¬ isOpen ∨ parsePacket (packetFramer.frames taken).2 = .bad)

namespace Reader

/-- Between two events no packet is being read, or reading has stopped at an error and the socket is
still open. -/
inductive State.Settled (r : State) : Prop
  | idle (failed : r.failed = []) (idle : r.buffers.Idle)
  | stopped {b₀ : SocketBuffer} {s : CInt} {k : ℕ} {hd : List UInt8} (failed : r.failed = [s])
      (ne : s ≠ 0) (reading : SocketBuffer.Reading b₀ r.buffers s k hd)

variable {r r' : State} {s t : CInt}

/-- What a socket has begun is in its own queue. -/
theorem pending_congr {b b' : SocketBuffer} (h : b'.find s = b.find s) :
    b'.pending s = b.pending s := by
  rw [SocketBuffer.pending, SocketBuffer.pending, h]

namespace State

/-- Nothing is being read at first. -/
theorem settled_initial (net : CInt → List Arrival) : (initial net).Settled :=
  .idle rfl SocketBuffer.idle_initial

/-- Every socket has one queue at most. -/
theorem Settled.distinct (hr : r.Settled) : r.buffers.Distinct := by
  cases hr with
  | idle failed idle => exact idle.distinct
  | stopped failed ne reading => exact reading.distinct

/-- No packet is being read if every failed socket was closed. -/
theorem Settled.idle_of_closed (hr : r.Settled) (hfailed : r.failed = []) : r.buffers.Idle := by
  cases hr with
  | idle failed idle => exact idle
  | stopped failed ne reading =>
      rw [hfailed] at failed
      cases failed

/-- Closing a socket, the one that reading stopped at or any other. -/
theorem Settled.close (hr : r.Settled) (t : CInt) : (r.close t).Settled := by
  cases hr with
  | idle failed idle => exact .idle (by rw [State.close, failed]; rfl) (idle.cleanup t).idle
  | @stopped b₀ s k hd failed ne reading =>
      by_cases ht : t = s
      · subst ht
        refine .idle ?_ (reading.cleanup ne).idle
        rw [State.close, failed]
        simp
      · refine .stopped (s := s) ?_ ne (reading.cleanup_other ht)
        rw [State.close, failed]
        simp [Ne.symm ht]

/-- A socket that is closed has nothing begun, and the other queues stay. -/
theorem find_close (hr : r.Settled) (s t : CInt) :
    (r.close t).buffers.find s = if s = t then none else r.buffers.find s :=
  SocketBuffer.find_cleanup hr.distinct

theorem net_close (r : State) (s t : CInt) :
    (r.close t).net s = if s = t then [] else r.net s := rfl

/-- Another socket's failure stays on record. -/
theorem mem_failed_close (hst : s ≠ t) (h : s ∈ r.failed) : s ∈ (r.close t).failed :=
  List.mem_filter.mpr ⟨h, decide_eq_true hst⟩

/-- What a read of the socket `t` leaves. -/
inductive Ready (r r' : State) (t : CInt) :
    Option (CInt × ReadResult (UInt8 × List UInt8)) → Prop
  | nothing (state : r' = r) : Ready r r' t none
  | goes {res : ReadResult (UInt8 × List UInt8)}
      (attempted : Attempted r.toReader r'.toReader t (r.buffers.pending t) res)
      (ne : res ≠ .error) (failed : r'.failed = r.failed) : Ready r r' t (some (t, res))
  | stops (attempted : Attempted r.toReader r'.toReader t (r.buffers.pending t) .error)
      (failed : r'.failed = t :: r.failed) : Ready r r' t (some (t, .error))

/-- A socket is read while every failed socket is closed. -/
theorem step_ready (hr : r.Settled) (hfailed : r.failed = []) (t : CInt) :
    ∃ r' obs, r.step (.ready t) = .ok (r', obs) ∧ r'.Settled ∧ Ready r r' t obs := by
  by_cases hpos : 0 < t.toInt
  · have ht : t ≠ 0 := by
      rintro rfl
      exact absurd hpos (by decide)
    obtain ⟨res, reader, hread, hatt⟩ := readPacket_spec (hr.idle_of_closed hfailed) ht
    cases res with
    | complete f =>
        refine ⟨⟨reader, r.failed⟩, some (t, .complete f), ?_, ?_, .goes hatt nofun rfl⟩
        · simp only [step, if_pos hpos, hread]
          rfl
        · cases hatt with
          | complete took parse after => exact .idle hfailed after.idle
    | interrupted =>
        refine ⟨⟨reader, r.failed⟩, some (t, .interrupted), ?_, ?_, .goes hatt nofun rfl⟩
        · simp only [step, if_pos hpos, hread]
          rfl
        · cases hatt with
          | interrupted took parse after => exact .idle hfailed after.idle
    | error =>
        refine ⟨⟨reader, t :: r.failed⟩, some (t, .error), ?_, ?_, .stops hatt rfl⟩
        · simp only [step, if_pos hpos, hread]
          rfl
        · cases hatt with
          | error others reading cause => exact .stopped (by rw [hfailed]) ht reading
  · exact ⟨r, none, by simp only [step, if_neg hpos], hr, .nothing rfl⟩

/-- **One event** goes through and leaves no packet being read, but for the socket of an error. -/
theorem step_settled (hr : r.Settled) {e : Event} (he : r.ClosesFailed e) :
    ∃ r' obs, r.step e = .ok (r', obs) ∧ r'.Settled := by
  cases e with
  | connect t arrivals =>
      refine ⟨_, none, rfl, ?_⟩
      cases hr.close t with
      | idle failed idle => exact .idle failed idle
      | stopped failed ne reading => exact .stopped failed ne reading
  | ready t =>
      obtain ⟨r', obs, hstep, hsettled, -⟩ := step_ready hr he t
      exact ⟨r', obs, hstep, hsettled⟩
  | close t => exact ⟨_, none, rfl, hr.close t⟩

end State

/-- An event that concerns another socket, or none. -/
theorem Progress.frame {stream : List UInt8} {isOpen : Prop} {fs : List (UInt8 × List UInt8)}
    (h : Progress stream isOpen r s fs) (hnet : r'.net s = r.net s)
    (hfind : r'.buffers.find s = r.buffers.find s) (hfailed : s ∈ r.failed → s ∈ r'.failed) :
    Progress stream isOpen r' s fs := by
  have hpending := pending_congr hfind
  cases h with
  | live split frames open_ =>
      exact .live (by rw [hnet]; exact split) (by rw [hpending]; exact frames)
        (by rw [hnet]; exact open_)
  | dead split frames ended cause =>
      refine .dead split frames ?_ cause
      rw [hnet, hpending]
      exact ended.imp_left hfailed

/-- The socket is closed. -/
theorem Progress.close {stream : List UInt8} {isOpen : Prop} {fs : List (UInt8 × List UInt8)}
    (hr : r.Settled) (h : Progress stream isOpen r s fs) (hopen : ¬ isOpen) :
    Progress stream isOpen (r.close s) s fs := by
  have hended : Arrival.stream ((r.close s).net s) = [] ∧ (r.close s).buffers.pending s = [] := by
    rw [State.net_close, if_pos rfl]
    exact ⟨rfl, SocketBuffer.pending_of_none (by rw [State.find_close hr, if_pos rfl])⟩
  cases h with
  | live split frames open_ =>
      exact .dead split (congrArg Prod.fst frames) (Or.inr hended) (Or.inl hopen)
  | dead split frames ended cause => exact .dead split frames (Or.inr hended) cause

/-- A read that does not stop at an error: the packet is the next frame, or its bytes are put with
those that have come. -/
theorem Progress.goes {stream : List UInt8} {isOpen : Prop} {fs : List (UInt8 × List UInt8)}
    (h : Progress stream isOpen r s fs) (hfailed : r.failed = [])
    {res : ReadResult (UInt8 × List UInt8)} (hne : res ≠ .error)
    (hattempted : Attempted r.toReader r'.toReader s (r.buffers.pending s) res) :
    Progress stream isOpen r' s (fs ++ packetsOf s [some (s, res)]) := by
  cases h with
  | live split frames open_ =>
      cases hattempted with
      | complete took parse after =>
          rw [packetsOf_complete]
          refine .live (by rw [split, took.stream, List.append_assoc]) ?_ fun ho =>
            took.isOpen (open_ ho)
          rw [after.pending]
          exact Framer.frames_append_of_done frames parse
      | interrupted took parse after =>
          rw [packetsOf_interrupted, List.append_nil]
          refine .live (by rw [split, took.stream, List.append_assoc]) ?_ fun ho =>
            took.isOpen (open_ ho)
          rw [after.pending]
          exact Framer.frames_append_of_more frames parse
      | error others reading cause => exact absurd rfl hne
  | dead split frames ended cause =>
      -- a closed stream gives no bytes, and so no packet
      obtain ⟨hnet, hpending⟩ := ended.resolve_left (by rw [hfailed]; exact List.not_mem_nil)
      rw [hpending] at hattempted
      cases hattempted with
      | complete took parse after =>
          rw [(took.of_stream_nil hnet).1] at parse
          cases parse
      | interrupted took parse after =>
          obtain ⟨hbytes, hnet'⟩ := took.of_stream_nil hnet
          rw [packetsOf_interrupted, List.append_nil]
          refine .dead split frames (Or.inr ⟨hnet', ?_⟩) cause
          rw [after.pending, hbytes]
          rfl
      | error others reading cause => exact absurd rfl hne

/-- A read that stops at an error: the connection has ended, or a length is too long. -/
theorem Progress.stops {stream : List UInt8} {isOpen : Prop} {fs : List (UInt8 × List UInt8)}
    (h : Progress stream isOpen r s fs) (hended : s ∈ r'.failed)
    (hattempted : Attempted r.toReader r'.toReader s (r.buffers.pending s) .error) :
    Progress stream isOpen r' s fs := by
  cases h with
  | live split frames open_ =>
      cases hattempted with
      | error others reading cause =>
          rcases cause with hopen | ⟨bs, took, hbad⟩
          · exact .dead split (congrArg Prod.fst frames) (Or.inl hended)
              (Or.inl fun ho => hopen (open_ ho))
          · have hframes := Framer.frames_append_of_bad frames hbad
            refine .dead (by rw [split, took.stream, List.append_assoc])
              (by rw [hframes]) (Or.inl hended) (Or.inr ?_)
            rw [hframes]
            exact hbad
  | dead split frames ended cause => exact .dead split frames (Or.inl hended) cause

/-- What an attempt to read from the socket makes of its stream. -/
theorem Progress.ready {stream : List UInt8} {isOpen : Prop} {fs : List (UInt8 × List UInt8)}
    (h : Progress stream isOpen r s fs) (hfailed : r.failed = [])
    {obs : Option (CInt × ReadResult (UInt8 × List UInt8))} (hready : State.Ready r r' s obs) :
    Progress stream isOpen r' s (fs ++ packetsOf s [obs]) := by
  cases hready with
  | nothing state =>
      subst state
      rw [packetsOf_none, List.append_nil]
      exact h
  | goes attempted ne failed => exact h.goes hfailed ne attempted
  | stops attempted failed =>
      rw [packetsOf_error, List.append_nil]
      exact h.stops (by rw [failed]; exact List.mem_cons_self) attempted

/-- What one event makes of a stream. -/
theorem Progress.step {stream : List UInt8} {isOpen : Prop} {fs : List (UInt8 × List UInt8)}
    (hr : r.Settled) (h : Progress stream isOpen r s fs) {e : Event} (he : r.ClosesFailed e)
    {obs : Option (CInt × ReadResult (UInt8 × List UInt8))} (hstep : r.step e = .ok (r', obs))
    (hconnect : ∀ arrivals, e ≠ .connect s arrivals) (hclose : e = .close s → ¬ isOpen) :
    Progress stream isOpen r' s (fs ++ packetsOf s [obs]) := by
  cases e with
  | connect t arrivals =>
      have hts : s ≠ t := fun h => hconnect arrivals (by rw [h])
      cases hstep
      rw [packetsOf_none, List.append_nil]
      exact h.frame (if_neg hts) ((State.find_close hr s t).trans (if_neg hts))
        (State.mem_failed_close hts)
  | ready t =>
      obtain ⟨r'', obs', hstep', -, hready⟩ := State.step_ready hr he t
      rw [hstep] at hstep'
      cases hstep'
      by_cases hts : s = t
      · subst hts
        exact h.ready he hready
      · have hnone : packetsOf s [obs] = [] := by
          cases hready with
          | nothing state => rfl
          | goes attempted ne failed => exact packetsOf_of_ne hts _
          | stops attempted failed => rfl
        rw [hnone, List.append_nil]
        cases hready with
        | nothing state =>
            subst state
            exact h
        | goes attempted ne failed =>
            have hkept : s ∈ r.failed → s ∈ r'.failed := fun hmem => failed ▸ hmem
            cases attempted with
            | complete took parse after => exact h.frame (took.others hts) (after.frame hts) hkept
            | interrupted took parse after =>
                exact h.frame (took.others hts) (after.frame hts) hkept
            | error others reading cause => exact absurd rfl ne
        | stops attempted failed =>
            have hkept : s ∈ r.failed → s ∈ r'.failed := fun hmem => by
              rw [failed]
              exact List.mem_cons_of_mem t hmem
            cases attempted with
            | error others reading cause =>
                exact h.frame (others hts) (reading.frame hts) hkept
  | close t =>
      cases hstep
      rw [packetsOf_none, List.append_nil]
      by_cases hts : s = t
      · subst hts
        exact h.close hr (hclose rfl)
      · exact h.frame (if_neg hts) ((State.find_close hr s t).trans (if_neg hts))
          (State.mem_failed_close hts)

/-- Reading never faults, if a socket that it failed for is closed before the next one is read. -/
theorem run_settled (hr : r.Settled) {es : List Event}
    (hclosed : readerMachine.Along State.ClosesFailed r es) :
    (readerMachine.run r es).stop = none ∧ (readerMachine.run r es).state.Settled := by
  refine Machine.run_ok (G := fun _ _ => True) (I := State.Settled)
    (Machine.along_of_forall fun _ _ => trivial) hclosed hr ?_
  intro r e hsettled _ he
  obtain ⟨r', obs, hstep, hsettled'⟩ := State.step_settled hsettled he
  exact ⟨r', obs, hstep, hsettled'⟩

/-- What a run makes of a stream. -/
theorem Progress.run {stream : List UInt8} {isOpen : Prop} {fs : List (UInt8 × List UInt8)}
    (hr : r.Settled) (h : Progress stream isOpen r s fs) {es : List Event}
    (hclosed : readerMachine.Along State.ClosesFailed r es)
    (hconnect : ∀ arrivals, .connect s arrivals ∉ es) (hclose : .close s ∈ es → ¬ isOpen) :
    Progress stream isOpen (readerMachine.run r es).state s
      (fs ++ packetsOf s (readerMachine.run r es).out) := by
  induction es generalizing r fs with
  | nil => simpa [packetsOf] using h
  | cons e es ih =>
      obtain ⟨r', obs, hstep, hsettled⟩ := State.step_settled hr hclosed.1
      have hstep' : readerMachine.step r e = .ok (r', obs) := hstep
      have hnext := h.step hr hclosed.1 hstep (fun arrivals he => hconnect arrivals
        (he ▸ List.mem_cons_self)) fun he => hclose (he ▸ List.mem_cons_self)
      have hrun := ih hsettled hnext (hclosed.2 r' obs hstep')
        (fun arrivals he => hconnect arrivals (List.mem_cons_of_mem _ he))
        fun he => hclose (List.mem_cons_of_mem _ he)
      rw [readerMachine.run_cons_ok es hstep']
      rw [List.append_assoc, ← packetsOf_append] at hrun
      exact hrun

end Reader

section Connection

variable {net : CInt → List Arrival} {es₁ es₂ : List Reader.Event} {s : CInt}
    {arrivals : List Arrival}

/-- What was read from a connection is the front of its stream, frame by frame. -/
theorem progress_of_connect (hconnect : ∀ as, .connect s as ∉ es₂)
    (hclosed : readerMachine.Along Reader.State.ClosesFailed (.initial net)
      (es₁ ++ .connect s arrivals :: es₂)) :
    Reader.Progress (Arrival.stream arrivals) (Arrival.Open arrivals ∧ .close s ∉ es₂)
      (readerMachine.run (.initial net) (es₁ ++ .connect s arrivals :: es₂)).state s
      (packetsOf s ((readerMachine.run (.initial net)
        (es₁ ++ .connect s arrivals :: es₂)).out.drop (es₁.length + 1))) := by
  obtain ⟨hstop₁, hsettled₁⟩ :=
    Reader.run_settled (Reader.State.settled_initial net) hclosed.of_append
  have hclosed₂ := hclosed.append_right hstop₁
  obtain ⟨r, obs, hstep, hsettled⟩ := Reader.State.step_settled hsettled₁ hclosed₂.1
  have hconnected : readerMachine.step (readerMachine.run (.initial net) es₁).state
      (.connect s arrivals) = .ok (r, obs) := hstep
  have hstart : Reader.Progress (Arrival.stream arrivals)
      (Arrival.Open arrivals ∧ .close s ∉ es₂) r s [] := by
    cases hstep
    have hsplit : Arrival.stream arrivals = [] ++ Arrival.stream
        (if s = s then arrivals else (readerMachine.run (.initial net) es₁).state.net s) := by
      rw [if_pos rfl, List.nil_append]
    refine .live hsplit ?_ ?_
    · have hpending := SocketBuffer.pending_of_none
        ((Reader.State.find_close hsettled₁ s s).trans (if_pos rfl))
      exact Framer.frames_nil.trans (congrArg (Prod.mk []) hpending.symm)
    · rintro ⟨hopen, -⟩
      exact (congrArg Arrival.Open (if_pos rfl)).mpr hopen
  obtain ⟨hstate, hout⟩ := readerMachine.run_after es₂ hstop₁ hconnected
  rw [hstate, hout]
  exact hstart.run hsettled (hclosed₂.2 r obs hconnected) hconnect fun hmem hopen => hopen.2 hmem

/-- What arrives on a socket: a packet in two pieces. -/
def twoPieces : List Arrival := [.chunk 0xD0 [], .wouldBlock, .chunk 0 []]

/-- Another socket whose packet comes in pieces, and which fails. -/
def otherSocket : List Reader.Event :=
  [.connect 4 [.chunk 0x40 [], .wouldBlock, .chunk 2 [0], .failed], .ready 4]

/-- What is read, while the other socket fails and is closed. -/
def readBetween : List Reader.Event := [.ready 3, .ready 4, .ready 4, .close 4, .ready 3]

/-- A socket that is left open after an error gives its header byte to the next one: the packet
with the header byte `0x30` of the socket 4 is read as one with the `0x20` of the socket 3. -/
example : packetsOf 4 (readerMachine.run (.initial fun _ => [])
    [.connect 3 [.chunk 0x20 [], .closed],
      .connect 4 [.chunk 0x30 [3], .wouldBlock, .chunk 0 [1, 97]],
      .ready 3, .ready 4, .ready 4]).out = [(0x20, [])] := by
  decide

/-- Packets at the front of a stream of packets are read; and if the connection stays open, and all
of the stream has arrived and was taken, these are all of them. -/
theorem Reader.Progress.read {stream : List UInt8} {isOpen : Prop} {r : Reader.State}
    {fs packets : List (UInt8 × List UInt8)}
    (h : Reader.Progress stream isOpen r s packets) (hfs : ∀ f ∈ fs, f.2.length < 128 ^ 4)
    (hsofar : stream <+: fs.flatMap packetBytes) :
    packets <+: fs ∧ (isOpen → stream = fs.flatMap packetBytes → Arrival.stream (r.net s) = [] →
      packets = fs) := by
  obtain ⟨more, hmore⟩ := hsofar
  have hall : packetFramer.frames (stream ++ more) = (fs, []) := by
    rw [hmore]
    exact frames_packetBytes hfs
  have hwhole := hall
  cases h with
  | @live taken split frames _ =>
      rw [split, List.append_assoc, Framer.frames_append, frames, Prod.mk.injEq] at hall
      refine ⟨⟨_, hall.1⟩, fun _ heq hnil => ?_⟩
      have htaken : taken = fs.flatMap packetBytes := by
        rw [← heq, split, hnil, List.append_nil]
      rw [hmore, ← htaken, frames] at hwhole
      exact congrArg Prod.fst hwhole
  | @dead taken rest split frames _ cause =>
      rw [split, List.append_assoc, Framer.frames_append, Prod.mk.injEq, frames] at hall
      refine ⟨⟨_, hall.1⟩, fun hopen _ _ => ?_⟩
      -- a stream of packets has no length that is too long
      have hbad := cause.resolve_left fun hne => hne hopen
      have hbad' := packetFramer.bad_append (rest ++ more) hbad
      have hframes := Framer.frames_append_of_bad (rfl : packetFramer.frames taken = (_, _)) hbad'
      rw [← List.append_assoc, ← split, hwhole, Prod.mk.injEq] at hframes
      rw [← hframes.2] at hbad'
      cases hbad'

/-- **What is written is what is read.**  If a peer sends packets, and a socket that a read failed
for is closed before the next one is read, then the packets that are read are the first of them, in
their order; and they are all of them once its bytes have been taken, if its connection stays
open. -/
theorem packets_received {fs : List (UInt8 × List UInt8)} (hconnect : ∀ as, .connect s as ∉ es₂)
    (hclosed : readerMachine.Along Reader.State.ClosesFailed (.initial net)
      (es₁ ++ .connect s arrivals :: es₂))
    (hfs : ∀ f ∈ fs, f.2.length < 128 ^ 4)
    (hstream : Arrival.stream arrivals = fs.flatMap packetBytes) :
    packetsOf s ((readerMachine.run (.initial net)
        (es₁ ++ .connect s arrivals :: es₂)).out.drop (es₁.length + 1)) <+: fs ∧
      (Arrival.Open arrivals → .close s ∉ es₂ →
        Arrival.stream ((readerMachine.run (.initial net)
          (es₁ ++ .connect s arrivals :: es₂)).state.net s) = [] →
        packetsOf s ((readerMachine.run (.initial net)
          (es₁ ++ .connect s arrivals :: es₂)).out.drop (es₁.length + 1)) = fs) := by
  have hread := (progress_of_connect hconnect hclosed).read hfs (hstream ▸ List.prefix_rfl)
  exact ⟨hread.1, fun hopen hclose => hread.2 ⟨hopen, hclose⟩ hstream⟩

/-- In the same run, the packet is the one that was sent. -/
theorem packets_received_twoPieces :
    packetsOf 3 ((readerMachine.run (.initial fun _ => [])
        (otherSocket ++ .connect 3 twoPieces :: readBetween)).out.drop 3) <+: [(0xD0, [])] ∧
      (Arrival.Open twoPieces → .close 3 ∉ readBetween →
        Arrival.stream ((readerMachine.run (.initial fun _ => [])
          (otherSocket ++ .connect 3 twoPieces :: readBetween)).state.net 3) = [] →
        packetsOf 3 ((readerMachine.run (.initial fun _ => [])
          (otherSocket ++ .connect 3 twoPieces :: readBetween)).out.drop 3) = [(0xD0, [])]) :=
  @packets_received (fun _ => []) otherSocket readBetween 3 twoPieces [(0xD0, [])]
    (by simp [readBetween]) (by decide +kernel) (by decide) (by decide)

end Connection
