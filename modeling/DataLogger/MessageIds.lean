/-
# Message ids

`MQTTProtocol_assignMsgId` tries the ids from 1 to 65535 in a circle, from the one after
the last id that it assigned.  `assignMsgId_first_free` says that the id that it assigns is
the first free one, and that there is one as long as there are fewer than 65534 messages in
flight; `assignMsgId_range` is what holds of every id that it assigns.
-/
import DataLogger.MqttSession
import Mathlib.Data.Finset.Card
import Mathlib.Data.Finset.Image
import Mathlib.Logic.Function.Iterate

namespace Session

variable {s s' : Session} {msgid start : CInt} {k : ℕ}

/-- The id that is tried `k` ids after the one that follows `start`. -/
def idAfter (start : CInt) (k : ℕ) : CInt := nextMsgId^[k + 1] start

/-- The next id is the next number, and 1 follows on 65535. -/
theorem toNat_nextMsgId (h : msgid.toNat ≤ 65535) :
    (nextMsgId msgid).toNat = msgid.toNat % 65535 + 1 := by
  unfold nextMsgId maxMsgId
  split
  · next hmax =>
      subst hmax
      rfl
  · next hmax =>
      have hne : msgid.toNat ≠ 65535 := fun heq => hmax (BitVec.eq_of_toNat_eq heq)
      have hone : BitVec.toNat (1 : CInt) = 1 := rfl
      rw [BitVec.toNat_add, hone]
      omega

theorem nextMsgId_idAfter : nextMsgId (idAfter start k) = idAfter start (k + 1) :=
  (Function.iterate_succ_apply' nextMsgId (k + 1) start).symm

/-- The ids from 1 to 65535 in a circle. -/
theorem toNat_idAfter (h : start.toNat ≤ 65535) (k : ℕ) :
    (idAfter start k).toNat = (start.toNat + k) % 65535 + 1 := by
  induction k with
  | zero => exact toNat_nextMsgId h
  | succ k ih =>
      rw [← nextMsgId_idAfter, toNat_nextMsgId (by omega), ih]
      omega

/-- Going round, no id comes up twice. -/
theorem idAfter_injOn (h : start.toNat ≤ 65535) {j k : ℕ} (hj : j < 65535) (hk : k < 65535)
    (heq : idAfter start j = idAfter start k) : j = k := by
  have hnat := congrArg BitVec.toNat heq
  rw [toNat_idAfter h, toNat_idAfter h] at hnat
  omega

/-- The search is back where it began after 65535 ids. -/
theorem idAfter_ne_start (h : start.toNat ≤ 65535) (hk : k < 65534) : idAfter start k ≠ start := by
  intro heq
  have hnat := congrArg BitVec.toNat heq
  rw [toNat_idAfter h] at hnat
  omega

/-- Some message in flight has the id. -/
def Used (s : Session) (msgid : CInt) : Prop := ∃ m ∈ s.outboundMsgs, m.msgid = msgid

/-- A message is found under the ids that are used. -/
theorem findMessage_ne_none : s.findMessage msgid ≠ none ↔ s.Used msgid := by
  rw [findMessage, ne_eq, List.find?_eq_none, Used]
  simp

/-- The search goes past ids that are used. -/
theorem assignMsgIdLoop_used (h : start.toNat ≤ 65535) {n : ℕ} (fuel : ℕ) (hn : n < 65534)
    (hused : ∀ j < n, s.Used (idAfter start j)) :
    s.assignMsgIdLoop start (fuel + n) (idAfter start 0) =
      s.assignMsgIdLoop start fuel (idAfter start n) := by
  induction n generalizing fuel with
  | zero => rfl
  | succ n ih =>
      have hprefix := ih (fuel + 1) (by omega) fun j hj => hused j (by omega)
      rw [Nat.add_right_comm] at hprefix
      have hfound : s.findMessage (idAfter start n) ≠ none :=
        findMessage_ne_none.mpr (hused n (Nat.lt_succ_self n))
      rw [← Nat.add_assoc, hprefix, assignMsgIdLoop, if_pos hfound]
      dsimp only
      rw [nextMsgId_idAfter, if_neg (idAfter_ne_start h hn)]

/-- Among one id more than there are messages in flight there is a free one. -/
theorem exists_free (h : start.toNat ≤ 65535) (hroom : s.outboundMsgs.length < 65535) :
    ∃ k ≤ s.outboundMsgs.length, ¬ s.Used (idAfter start k) := by
  by_contra hall
  have hused : ∀ k ≤ s.outboundMsgs.length, s.Used (idAfter start k) := fun k hk =>
    not_not.mp fun hfree => hall ⟨k, hk, hfree⟩
  have hcard : ((Finset.range (s.outboundMsgs.length + 1)).image (idAfter start)).card =
      s.outboundMsgs.length + 1 := by
    rw [Finset.card_image_of_injOn, Finset.card_range]
    intro j hj k hk heq
    rw [Finset.coe_range, Set.mem_Iio] at hj hk
    exact idAfter_injOn h (by omega) (by omega) heq
  have hsub : (Finset.range (s.outboundMsgs.length + 1)).image (idAfter start) ⊆
      (s.outboundMsgs.map (·.msgid)).toFinset := by
    intro i hi
    obtain ⟨k, hk, rfl⟩ := Finset.mem_image.mp hi
    obtain ⟨m, hm, hid⟩ := hused k (Nat.lt_succ_iff.mp (Finset.mem_range.mp hk))
    exact List.mem_toFinset.mpr (List.mem_map.mpr ⟨m, hm, hid⟩)
  have hle := Finset.card_le_card hsub
  have hlength := List.toFinset_card_le (s.outboundMsgs.map (·.msgid))
  rw [List.length_map] at hlength
  omega

/-- **The first free id.**  With fewer than 65534 messages in flight a new one is given the first
free id after the last that was assigned, in the circle from 1 to 65535. -/
theorem assignMsgId_first_free (h : s.msgID.toNat ≤ 65535) (hroom : s.outboundMsgs.length < 65534) :
    ∃ k ≤ s.outboundMsgs.length,
      s.assignMsgId = some (idAfter s.msgID k, { s with msgID := idAfter s.msgID k }) ∧
        (idAfter s.msgID k).toNat = (s.msgID.toNat + k) % 65535 + 1 ∧
        ¬ s.Used (idAfter s.msgID k) ∧ ∀ j < k, s.Used (idAfter s.msgID j) := by
  classical
  have hexists : ∃ k, ¬ s.Used (idAfter s.msgID k) :=
    (exists_free h (by omega)).imp fun _ hk => hk.2
  obtain ⟨k', hk', hfree'⟩ := exists_free h (by omega : s.outboundMsgs.length < 65535)
  have hle : Nat.find hexists ≤ s.outboundMsgs.length := (Nat.find_min' hexists hfree').trans hk'
  have hfree := Nat.find_spec hexists
  have hused : ∀ j < Nat.find hexists, s.Used (idAfter s.msgID j) := fun j hj =>
    not_not.mp (Nat.find_min hexists hj)
  refine ⟨Nat.find hexists, hle, ?_, toNat_idAfter h _, hfree, hused⟩
  have hfuel : 2 ^ 32 = (2 ^ 32 - 1 - Nat.find hexists) + 1 + Nat.find hexists := by omega
  have hloop := assignMsgIdLoop_used h (2 ^ 32 - 1 - Nat.find hexists + 1) (by omega) hused
  have hnone : ¬ s.findMessage (idAfter s.msgID (Nat.find hexists)) ≠ none :=
    mt findMessage_ne_none.mp hfree
  rw [assignMsgIdLoop, if_neg hnone, ← hfuel] at hloop
  have hne : idAfter s.msgID (Nat.find hexists) ≠ 0 := by
    intro hzero
    have hnat := toNat_idAfter h (Nat.find hexists)
    rw [hzero] at hnat
    cases hnat
  have hstart : nextMsgId s.msgID = idAfter s.msgID 0 := rfl
  rw [assignMsgId, hstart, hloop, Option.map_some, if_pos hne]

/-- The last id was assigned, and the first one is in use. -/
theorem assignMsgId_first_free_wrapped : ∃ k ≤ 1, (Session.mk false true 65535 10
      [⟨1, 0, 1, [116], [], 0⟩] 4).assignMsgId =
    some (idAfter 65535 k, ⟨false, true, idAfter 65535 k, 10, [⟨1, 0, 1, [116], [], 0⟩], 4⟩) := by
  obtain ⟨k, hk, hassign, -⟩ := assignMsgId_first_free
    (s := ⟨false, true, 65535, 10, [⟨1, 0, 1, [116], [], 0⟩], 4⟩) (by decide) (by decide)
  exact ⟨k, hk, hassign⟩

/-- An id that is assigned can be carried by a packet. -/
theorem assignMsgIdLoop_range {fuel : ℕ} {msgid' : CInt} (h : 0 < msgid.toNat ∧ msgid.toNat ≤ 65535)
    (hloop : s.assignMsgIdLoop start fuel msgid = some msgid') (hne : msgid' ≠ 0) :
    0 < msgid'.toNat ∧ msgid'.toNat ≤ 65535 := by
  induction fuel generalizing msgid with
  | zero => cases hloop
  | succ fuel ih =>
      have hnext := toNat_nextMsgId h.2
      rw [assignMsgIdLoop] at hloop
      split at hloop
      · dsimp only at hloop
        split at hloop
        · cases hloop
          exact absurd rfl hne
        · exact ih (by omega) hloop
      · cases hloop
        exact h

/-- An id that is assigned is in the range of the protocol. -/
theorem assignMsgId_range (h : s.msgID.toNat ≤ 65535) (hassign : s.assignMsgId = some (msgid, s'))
    (hne : msgid ≠ 0) : 0 < msgid.toNat ∧ msgid.toNat ≤ 65535 := by
  obtain ⟨msgid', hloop, heq⟩ := Option.map_eq_some_iff.mp hassign
  cases heq
  have hnext := toNat_nextMsgId h
  exact assignMsgIdLoop_range (by omega) hloop hne

end Session
