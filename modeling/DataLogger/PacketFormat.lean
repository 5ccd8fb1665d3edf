/-
# The format of packets

What is sent can be read: the functions that write packets and the ones that take them
apart agree, up to two limits of the format that the code does not check, the 65535 bytes
of a topic and the `128 ^ 4 - 1` bytes of the rest of a packet.

* `sendPublish_roundtrip_iff` : a publication is read back exactly when it keeps to both;
* `mqttPacketPublish_accepts` : what is accepted as a publication is well formed, or it lacks its
  id, which is then read behind the packet;
* `frames_packetBytes` : the packets that are sent one after the other are what is read.
-/
import DataLogger.MqttPacket
import Mathlib.Tactic.Ring

/-! ## The header byte -/

/-- Every header byte can be read back. -/
@[simp] theorem Header.ofByte_byte (h : Header) : Header.ofByte h.byte = h := by
  obtain ⟨type, dup, qos, retain⟩ := h
  revert qos
  cases type <;> cases dup <;> cases retain <;> decide

/-- Every byte is a header. -/
@[simp] theorem Header.byte_ofByte (b : UInt8) : (Header.ofByte b).byte = b := by
  obtain ⟨⟨b⟩⟩ := b
  revert b
  decide +kernel

/-! ## Lengths in base 128 -/

/-- The byte of the lowest digit of a length. -/
def lowDigit (n : CULong) : UInt8 := .ofBitVec ((n % 128).truncate 8)

theorem toNat_lowDigit (n : CULong) : (lowDigit n).toNat = n.toNat % 128 := by
  simp only [lowDigit, BitVec.truncate_eq_setWidth, UInt8.toNat_ofBitVec, BitVec.toNat_setWidth,
    BitVec.toNat_umod]
  simp
  omega

theorem lowDigit_lt (n : CULong) : lowDigit n < 128 := by
  rw [UInt8.lt_iff_toNat_lt, toNat_lowDigit]
  exact Nat.mod_lt _ (by decide)

/-- The bits of a digit, with the top bit and without it. -/
theorem digit_bits : ∀ d : UInt8, d < 128 →
    d &&& 127 = d ∧ d &&& 128 = 0 ∧ (d ||| 0x80) &&& 127 = d ∧ (d ||| 0x80) &&& 128 ≠ 0 := by
  rintro ⟨⟨d⟩⟩
  revert d
  decide +kernel

theorem encodeLoop_succ (fuel : ℕ) (n : CULong) : encodeLoop (fuel + 1) n =
    if 0 < n / 128 then (lowDigit n ||| 0x80) :: encodeLoop fuel (n / 128) else [lowDigit n] := rfl

theorem zero_lt_div_iff (n : CULong) : 0 < n / 128 ↔ 128 ≤ n.toNat := by
  rw [BitVec.lt_def, BitVec.toNat_udiv]
  simp

/-- The value of a digit at its place is within an `int`. -/
theorem place_eq {len : ℕ} (hlen : len < 4) {d : UInt8} (hd : d < 128) :
    CInt.toULong (d.toBitVec.zeroExtend 32 * BitVec.ofNat 32 (128 ^ len)) =
      BitVec.ofNat 64 (d.toNat * 128 ^ len) := by
  rw [UInt8.lt_iff_toNat_lt] at hd
  have hd : d.toNat < 128 := hd
  have hpow : 128 ^ len ≤ 128 ^ 3 := Nat.pow_le_pow_right (by decide) (by omega)
  have hlt : d.toNat * 128 ^ len < 2 ^ 31 :=
    calc d.toNat * 128 ^ len ≤ 127 * 128 ^ 3 := Nat.mul_le_mul (by omega) hpow
      _ < 2 ^ 31 := by decide
  have hnat : (d.toBitVec.zeroExtend 32 * BitVec.ofNat 32 (128 ^ len)).toNat =
      d.toNat * 128 ^ len := by
    rw [BitVec.toNat_mul, BitVec.toNat_setWidth, BitVec.toNat_ofNat, UInt8.toNat_toBitVec,
      Nat.mod_eq_of_lt (by omega : d.toNat < 2 ^ 32),
      Nat.mod_eq_of_lt (by omega : 128 ^ len < 2 ^ 32), Nat.mod_eq_of_lt (by omega)]
  have hmsb : (d.toBitVec.zeroExtend 32 * BitVec.ofNat 32 (128 ^ len)).msb = false := by
    rw [BitVec.msb_eq_false_iff_two_mul_lt, hnat]
    omega
  apply BitVec.eq_of_toNat_eq
  rw [CInt.toULong, BitVec.signExtend_eq_setWidth_of_msb_false hmsb, BitVec.toNat_setWidth, hnat,
    BitVec.toNat_ofNat]

section Decode

variable {len : ℕ} {multiplier : CInt} {value : CULong} {c : UInt8} {bytes : List UInt8}

theorem decodeLoop_of_le (hlen : 4 ≤ len) : decodeLoop len multiplier value bytes = .bad := by
  unfold decodeLoop
  exact if_pos (Nat.lt_succ_of_le hlen)

theorem decodeLoop_nil (hlen : len < 4) : decodeLoop len multiplier value [] = .more := by
  unfold decodeLoop
  exact if_neg (Nat.not_lt.mpr hlen)

theorem decodeLoop_cons (hlen : len < 4) : decodeLoop len multiplier value (c :: bytes) =
    if c &&& 128 ≠ 0 then
      decodeLoop (len + 1) (multiplier * 128)
        (value + CInt.toULong ((c &&& 127).toBitVec.zeroExtend 32 * multiplier)) bytes
    else .done (value + CInt.toULong ((c &&& 127).toBitVec.zeroExtend 32 * multiplier)) bytes := by
  rw [decodeLoop]
  exact if_neg (Nat.not_lt.mpr hlen)

end Decode

section DecodeEncode

variable {len : ℕ} (hlen : len < 4) (value n : CULong) (bytes : List UInt8)

include hlen

/-- Reading a digit that another one follows. -/
theorem decodeLoop_continue :
    decodeLoop len (BitVec.ofNat 32 (128 ^ len)) value ((lowDigit n ||| 0x80) :: bytes) =
      decodeLoop (len + 1) (BitVec.ofNat 32 (128 ^ (len + 1)))
        (value + BitVec.ofNat 64 (n.toNat % 128 * 128 ^ len)) bytes := by
  obtain ⟨-, -, h127, h128⟩ := digit_bits (lowDigit n) (lowDigit_lt n)
  have hmul : BitVec.ofNat 32 (128 ^ (len + 1)) = BitVec.ofNat 32 (128 ^ len) * 128 := by
    rw [pow_succ, BitVec.ofNat_mul]
    rfl
  rw [decodeLoop_cons hlen]
  simp only [h127, h128, place_eq hlen (lowDigit_lt n), toNat_lowDigit, hmul, ne_eq,
    not_false_eq_true, if_true]

/-- Reading the last digit. -/
theorem decodeLoop_last :
    decodeLoop len (BitVec.ofNat 32 (128 ^ len)) value (lowDigit n :: bytes) =
      .done (value + BitVec.ofNat 64 (n.toNat % 128 * 128 ^ len)) bytes := by
  obtain ⟨h127, h128, -, -⟩ := digit_bits (lowDigit n) (lowDigit_lt n)
  rw [decodeLoop_cons hlen]
  simp only [h127, h128, place_eq hlen (lowDigit_lt n), toNat_lowDigit, ne_eq, not_true_eq_false,
    if_false]

end DecodeEncode

/-- A length that has room for its digits is read back. -/
theorem decodeLoop_encodeLoop {fuel len : ℕ} {value n : CULong} (rest : List UInt8)
    (hfuel : 4 ≤ len + fuel) (hlen : len < 4) (hn : n.toNat < 128 ^ (4 - len)) :
    decodeLoop len (BitVec.ofNat 32 (128 ^ len)) value (encodeLoop fuel n ++ rest) =
      .done (value + BitVec.ofNat 64 (n.toNat * 128 ^ len)) rest := by
  induction fuel generalizing len value n with
  | zero => omega
  | succ fuel ih =>
      rw [encodeLoop_succ]
      by_cases hmore : 128 ≤ n.toNat
      · rw [if_pos ((zero_lt_div_iff n).mpr hmore), List.cons_append, decodeLoop_continue hlen]
        have hdiv : (n / 128).toNat = n.toNat / 128 := by
          rw [BitVec.toNat_udiv]
          rfl
        have hsub : 4 - len = (4 - (len + 1)) + 1 := by
          by_cases h3 : len = 3
          · subst h3
            simp at hn
            omega
          · omega
        have hlen' : len + 1 < 4 := by
          by_contra h
          have h3 : len = 3 := by omega
          subst h3
          simp at hn
          omega
        have hn' : (n / 128).toNat < 128 ^ (4 - (len + 1)) := by
          rw [hsub, pow_succ] at hn
          rw [hdiv]
          exact Nat.div_lt_of_lt_mul (by omega)
        rw [ih (by omega) hlen' hn', BitVec.add_assoc, ← BitVec.ofNat_add, hdiv]
        have hsum : n.toNat % 128 * 128 ^ len + n.toNat / 128 * 128 ^ (len + 1) =
            n.toNat * 128 ^ len := by
          rw [pow_succ']
          calc n.toNat % 128 * 128 ^ len + n.toNat / 128 * (128 * 128 ^ len)
              = (n.toNat % 128 + 128 * (n.toNat / 128)) * 128 ^ len := by ring
            _ = n.toNat * 128 ^ len := by rw [Nat.mod_add_div]
        rw [hsum]
      · rw [if_neg fun h => hmore ((zero_lt_div_iff n).mp h), List.cons_append, List.nil_append,
          decodeLoop_last hlen, Nat.mod_eq_of_lt (by omega : n.toNat < 128)]

/-- A length that needs more digits is not accepted. -/
theorem decodeLoop_encodeLoop_bad {fuel len : ℕ} {value n : CULong} (rest : List UInt8)
    (hfuel : 4 ≤ len + fuel) (hlen : len ≤ 4) (hn : 128 ^ (4 - len) ≤ n.toNat) :
    decodeLoop len (BitVec.ofNat 32 (128 ^ len)) value (encodeLoop fuel n ++ rest) = .bad := by
  induction hk : 4 - len generalizing fuel len value n with
  | zero =>
      have h4 : len = 4 := by omega
      subst h4
      exact decodeLoop_of_le (le_refl 4)
  | succ k ih =>
      obtain ⟨fuel, rfl⟩ : ∃ f, fuel = f + 1 := ⟨fuel - 1, by omega⟩
      rw [hk, pow_succ] at hn
      have hmore : 128 ≤ n.toNat :=
        le_trans (Nat.le_mul_of_pos_left 128 (Nat.pow_pos (by decide))) hn
      rw [encodeLoop_succ, if_pos ((zero_lt_div_iff n).mpr hmore), List.cons_append,
        decodeLoop_continue (by omega)]
      refine ih (by omega) (by omega) ?_ (by omega)
      rw [show 4 - (len + 1) = k by omega, BitVec.toNat_udiv]
      exact (Nat.le_div_iff_mul_le (by decide)).mpr hn

/-- The lengths that the format has room for are read back. -/
theorem decode_encode {n : CULong} (hn : n.toNat < 128 ^ 4) (rest : List UInt8) :
    decode (encode n ++ rest) = .done n rest := by
  have h : decodeLoop 0 (BitVec.ofNat 32 (128 ^ 0)) 0 (encodeLoop 10 n ++ rest) = _ :=
    decodeLoop_encodeLoop rest (by omega) (by omega) hn
  simpa [decode, encode] using h

/-- Other lengths are written and not accepted. -/
theorem decode_encode_bad {n : CULong} (hn : 128 ^ 4 ≤ n.toNat) (rest : List UInt8) :
    decode (encode n ++ rest) = .bad := by
  have h : decodeLoop 0 (BitVec.ofNat 32 (128 ^ 0)) 0 (encodeLoop 10 n ++ rest) = _ :=
    decodeLoop_encodeLoop_bad rest (by omega) (by omega) hn
  simpa [decode, encode] using h

/-! ## Packets as frames

A frame is a header byte and the rest of the packet, as `MQTTPacket_Factory` has them when a
packet has come as a whole. -/

/-- What has been decided about a length stands when more bytes come. -/
theorem decodeLoop_append (len : ℕ) (multiplier : CInt) (value : CULong) (bytes ys : List UInt8) :
    decodeLoop len multiplier value bytes = .more ∨
      decodeLoop len multiplier value (bytes ++ ys) =
        match decodeLoop len multiplier value bytes with
        | .done n rest => .done n (rest ++ ys)
        | p => p := by
  by_cases hlen : 4 ≤ len
  · exact Or.inr (by rw [decodeLoop_of_le hlen, decodeLoop_of_le hlen])
  · induction bytes generalizing len multiplier value with
    | nil => exact Or.inl (decodeLoop_nil (by omega))
    | cons c bytes ih =>
        rw [List.cons_append, decodeLoop_cons (by omega), decodeLoop_cons (by omega)]
        by_cases hc : c &&& 128 ≠ 0
        · rw [if_pos hc, if_pos hc]
          by_cases hlen' : 4 ≤ len + 1
          · exact Or.inr (by rw [decodeLoop_of_le hlen', decodeLoop_of_le hlen'])
          · exact ih _ _ _ hlen'
        · exact Or.inr (by rw [if_neg hc, if_neg hc])

/-- What follows a length is what is left. -/
theorem decodeLoop_suffix {len : ℕ} {multiplier : CInt} {value n : CULong} {bytes rest : List UInt8}
    (h : decodeLoop len multiplier value bytes = .done n rest) :
    ∃ digits, bytes = digits ++ rest := by
  induction bytes generalizing len multiplier value with
  | nil =>
      by_cases hlen : 4 ≤ len
      · rw [decodeLoop_of_le hlen] at h
        cases h
      · rw [decodeLoop_nil (by omega)] at h
        cases h
  | cons c bytes ih =>
      by_cases hlen : 4 ≤ len
      · rw [decodeLoop_of_le hlen] at h
        cases h
      · rw [decodeLoop_cons (by omega)] at h
        split at h
        · obtain ⟨digits, hdigits⟩ := ih h
          exact ⟨c :: digits, by rw [hdigits, List.cons_append]⟩
        · cases h
          exact ⟨[c], rfl⟩

/-- The header byte and the rest of a packet. -/
def parsePacket : List UInt8 → Parse UInt8 (UInt8 × List UInt8)
  | [] => .more
  | aHeader :: bytes =>
      match decode bytes with
      | .more => .more
      | .bad => .bad
      | .done len rest =>
          if len.toNat ≤ rest.length then .done (aHeader, rest.take len.toNat) (rest.drop len.toNat)
          else .more

/-- The framer of packets. -/
def packetFramer : Framer UInt8 (UInt8 × List UInt8) where
  parse := parsePacket
  parse_nil := rfl
  length_lt := by
    intro xs a rest h
    cases xs with
    | nil => cases h
    | cons aHeader bytes =>
        rw [parsePacket] at h
        split at h
        · cases h
        · cases h
        · next len rest' hdecode =>
            split at h
            · cases h
              obtain ⟨digits, hdigits⟩ := decodeLoop_suffix hdecode
              rw [hdigits]
              simp
              omega
            · cases h
  done_append := by
    intro xs a rest ys h
    cases xs with
    | nil => cases h
    | cons aHeader bytes =>
        rw [parsePacket] at h
        rw [List.cons_append, parsePacket]
        split at h
        · cases h
        · cases h
        · next len rest' hdecode =>
            split at h
            · next hle =>
                cases h
                rcases decodeLoop_append 0 1 0 bytes ys with hmore | happ
                · rw [decode, hmore] at hdecode
                  cases hdecode
                · rw [← decode, ← decode, hdecode] at happ
                  rw [happ]
                  simp only [List.length_append]
                  rw [if_pos (by omega), List.take_append_of_le_length hle,
                    List.drop_append_of_le_length hle]
            · cases h
  bad_append := by
    intro xs ys h
    cases xs with
    | nil => cases h
    | cons aHeader bytes =>
        rw [parsePacket] at h
        rw [List.cons_append, parsePacket]
        split at h
        · cases h
        · next hdecode =>
            rcases decodeLoop_append 0 1 0 bytes ys with hmore | happ
            · rw [decode, hmore] at hdecode
              cases hdecode
            · rw [← decode, ← decode, hdecode] at happ
              rw [happ]
        · split at h <;> cases h

/-- The bytes of a packet. -/
def packetBytes (frame : UInt8 × List UInt8) : List UInt8 :=
  frame.1 :: (encode (BitVec.ofNat 64 frame.2.length) ++ frame.2)

theorem flatten_mqttPacketSends (header : Header) (bufs : List (List UInt8)) :
    (mqttPacketSends header bufs).flatten = packetBytes (header.byte, bufs.flatten) := rfl

/-- The bytes of a packet are one frame, if its rest is short enough for its length. -/
theorem parsePacket_packetBytes {f : UInt8 × List UInt8} (rest : List UInt8)
    (hlt : f.2.length < 128 ^ 4) : parsePacket (packetBytes f ++ rest) = .done f rest := by
  have hn : (BitVec.ofNat 64 f.2.length : CULong).toNat = f.2.length := by
    rw [BitVec.toNat_ofNat, Nat.mod_eq_of_lt (by omega)]
  rw [packetBytes, List.cons_append, parsePacket, List.append_assoc,
    decode_encode (by rw [hn]; exact hlt)]
  simp only [hn, List.length_append]
  rw [if_pos (by omega), List.take_left, List.drop_left]

/-- A packet with a longer rest is not accepted. -/
theorem parsePacket_packetBytes_bad {f : UInt8 × List UInt8} (rest : List UInt8)
    (hle : 128 ^ 4 ≤ f.2.length) (hlt : f.2.length < 2 ^ 64) :
    parsePacket (packetBytes f ++ rest) = .bad := by
  have hn : (BitVec.ofNat 64 f.2.length : CULong).toNat = f.2.length := by
    rw [BitVec.toNat_ofNat, Nat.mod_eq_of_lt hlt]
  rw [packetBytes, List.cons_append, parsePacket, List.append_assoc,
    decode_encode_bad (by rw [hn]; exact hle)]

/-- **Packets one after the other** are read as they were written. -/
theorem frames_packetBytes {frames : List (UInt8 × List UInt8)}
    (h : ∀ f ∈ frames, f.2.length < 128 ^ 4) :
    packetFramer.frames (frames.flatMap packetBytes) = (frames, []) :=
  Framer.frames_flatMap fun f hf rest => parsePacket_packetBytes rest (h f hf)

/-! ## Numbers and strings of two bytes -/

/-- The two bytes of a number. -/
theorem writeInt_of_lt {anInt : CInt} (h : anInt.toNat < 65536) :
    writeInt anInt = [UInt8.ofNat (anInt.toNat / 256), UInt8.ofNat (anInt.toNat % 256)] := by
  have hnonneg : anInt.msb = false := by
    rw [BitVec.msb_eq_false_iff_two_mul_lt]
    omega
  have hdiv : anInt.sdiv 256 = anInt / 256 := by
    rw [BitVec.sdiv_eq, hnonneg]
    rfl
  have hmod : anInt.srem 256 = anInt % 256 := by
    rw [BitVec.srem_eq, hnonneg]
    rfl
  rw [writeInt, hdiv, hmod]
  refine congrArg₂ _ ?_ (congrArg₂ _ ?_ rfl)
  · apply UInt8.toNat_inj.mp
    simp
  · apply UInt8.toNat_inj.mp
    simp

/-- The number of two bytes. -/
theorem toNat_bytes (hi lo : UInt8) :
    (BitVec.ofNat 32 (256 * hi.toNat + lo.toNat) : CInt).toNat = 256 * hi.toNat + lo.toNat := by
  have hhi : hi.toNat < 256 := hi.toNat_lt
  have hlo : lo.toNat < 256 := lo.toNat_lt
  rw [BitVec.toNat_ofNat, Nat.mod_eq_of_lt (by omega)]

/-- Two bytes are written as they were read. -/
theorem writeInt_bytes (hi lo : UInt8) :
    writeInt (BitVec.ofNat 32 (256 * hi.toNat + lo.toNat)) = [hi, lo] := by
  have hhi : hi.toNat < 256 := hi.toNat_lt
  have hlo : lo.toNat < 256 := lo.toNat_lt
  rw [writeInt_of_lt (by rw [toNat_bytes]; omega), toNat_bytes]
  refine congrArg₂ _ ?_ (congrArg₂ _ ?_ rfl)
  · rw [show (256 * hi.toNat + lo.toNat) / 256 = hi.toNat by omega, UInt8.ofNat_toNat]
  · rw [show (256 * hi.toNat + lo.toNat) % 256 = lo.toNat by omega, UInt8.ofNat_toNat]

/-- A number that has room in two bytes is read back. -/
theorem readInt_writeInt {anInt : CInt} (h : anInt.toNat < 65536) (rest : List UInt8) :
    readInt (writeInt anInt ++ rest) = .ok (anInt, rest) := by
  have hvalue : BitVec.ofNat 32 (256 * (anInt.toNat / 256) + anInt.toNat % 256) = anInt := by
    rw [Nat.div_add_mod, BitVec.ofNat_toNat, BitVec.setWidth_eq]
  rw [writeInt_of_lt h, List.cons_append, List.cons_append, List.nil_append, readInt,
    UInt8.toNat_ofNat', UInt8.toNat_ofNat', Nat.mod_eq_of_lt (by omega : anInt.toNat / 256 < 2 ^ 8),
    Nat.mod_eq_of_lt (by omega : anInt.toNat % 256 < 2 ^ 8), hvalue]

/-- What is read is what was written before the rest. -/
theorem readInt_eq_ok_iff {data rest : List UInt8} {n : CInt} :
    readInt data = .ok (n, rest) ↔ n.toNat < 65536 ∧ data = writeInt n ++ rest := by
  constructor
  · intro h
    rcases data with _ | ⟨hi, _ | ⟨lo, data⟩⟩
    · cases h
    · cases h
    · have hhi : hi.toNat < 256 := hi.toNat_lt
      have hlo : lo.toNat < 256 := lo.toNat_lt
      cases h
      rw [toNat_bytes, writeInt_bytes]
      exact ⟨by omega, rfl⟩
  · rintro ⟨hn, rfl⟩
    exact readInt_writeInt hn rest

theorem toCInt_strlen (s : CString) : (strlen s).toCInt = BitVec.ofNat 32 s.length := by
  apply BitVec.eq_of_toNat_eq
  simp only [CULong.toCInt, strlen, BitVec.truncate_eq_setWidth, BitVec.toNat_setWidth,
    BitVec.toNat_ofNat]
  omega

/-- **Strings.**  What is read is a string of at most 65535 bytes that was written before
the rest. -/
theorem readUTFlen_eq_some_iff {data rest : List UInt8} {topic : CString} :
    readUTFlen data = some (topic, rest) ↔ topic.length < 65536 ∧
      data = writeUTF topic ++ rest := by
  constructor
  · intro h
    rcases data with _ | ⟨hi, _ | ⟨lo, data⟩⟩
    · cases h
    · cases h
    · have hhi : hi.toNat < 256 := hi.toNat_lt
      have hlo : lo.toNat < 256 := lo.toNat_lt
      simp only [readUTFlen] at h
      split at h
      · next hle =>
          cases h
          have hlength : (data.take (256 * hi.toNat + lo.toNat)).length =
              256 * hi.toNat + lo.toNat :=
            List.length_take_of_le hle
          have hlt : (data.take (256 * hi.toNat + lo.toNat)).length < 65536 := by
            rw [hlength]
            omega
          refine ⟨hlt, ?_⟩
          rw [writeUTF, toCInt_strlen, hlength, writeInt_bytes, List.append_assoc,
            List.take_append_drop]
          rfl
      · cases h
  · rintro ⟨hlt, rfl⟩
    have hn : (BitVec.ofNat 32 topic.length : CInt).toNat = topic.length := by
      rw [BitVec.toNat_ofNat, Nat.mod_eq_of_lt (by omega)]
    rw [writeUTF, toCInt_strlen, writeInt_of_lt (by omega), hn]
    simp only [List.cons_append, List.nil_append, readUTFlen, UInt8.toNat_ofNat']
    rw [Nat.mod_eq_of_lt (by omega : topic.length / 256 < 2 ^ 8),
      Nat.mod_eq_of_lt (by omega : topic.length % 256 < 2 ^ 8), Nat.div_add_mod, if_pos (by simp),
      List.take_left, List.drop_left]

/-! ## Publications -/

/-- The rest of the packet of a publication, after its header byte and its length. -/
def publishBody (pack : Publish) (qos : BitVec 2) : List UInt8 :=
  writeUTF pack.topic ++ (if 0 < qos.toNat then writeInt pack.msgId else []) ++ pack.payload

/-- A publication that can be received: its lengths are those of its topic and payload, and it has
an id if its quality of service has one. -/
structure PublishPacket.WellFormed (p : PublishPacket) : Prop where
  topiclen : p.topiclen = BitVec.ofNat 32 p.topic.length
  topic : p.topic.length < 65536
  payloadlen : p.payloadlen = BitVec.ofNat 32 p.payload.length
  msgId : p.msgId.toNat < 65536
  qos : p.header.qos.toNat = 0 → p.msgId = 0

/-- A publication that should have an id, and whose data end before it: the id is what stands there,
with the bytes behind the data, and the length of the payload is negative. -/
structure PublishPacket.LacksId (p : PublishPacket) (data behind : List UInt8) : Prop where
  topiclen : p.topiclen = BitVec.ofNat 32 p.topic.length
  topic : p.topic.length < 65536
  qos : 0 < p.header.qos.toNat
  msgId : p.msgId.toNat < 65536
  payload : p.payload = []
  ends : ∃ curdata rest, curdata.length < 2 ∧ data = writeUTF p.topic ++ curdata ∧
    curdata ++ behind = writeInt p.msgId ++ rest ∧
    p.payloadlen = BitVec.ofInt 32 (curdata.length - 2)

theorem length_writeInt (n : CInt) : (writeInt n).length = 2 := rfl

/-- The publication of a string and what follows it within the data, when it has no id. -/
theorem mqttPacketPublish_qos0 {aHeader : UInt8} {data behind curdata : List UInt8}
    {topic : CString} (hread : readUTFlen data = some (topic, curdata))
    (hqos : ¬ 0 < (Header.ofByte aHeader).qos.toNat) :
    mqttPacketPublish aHeader data behind = .ok (some (.publish
      ⟨⟨topic, curdata, .ofNat 32 curdata.length, 0⟩, .ofByte aHeader,
        .ofNat 32 topic.length⟩)) := by
  unfold mqttPacketPublish
  simp only [hread]
  exact if_neg hqos

/-- The publication of a string and what follows it, when the id is the next number. -/
theorem mqttPacketPublish_qos {aHeader : UInt8} {data behind curdata rest : List UInt8}
    {topic : CString} {msgId : CInt} (hread : readUTFlen data = some (topic, curdata))
    (hqos : 0 < (Header.ofByte aHeader).qos.toNat)
    (hid : readInt (curdata ++ behind) = .ok (msgId, rest)) :
    mqttPacketPublish aHeader data behind = .ok (some (.publish
      ⟨⟨topic, curdata.drop 2, .ofInt 32 (curdata.length - 2), msgId⟩, .ofByte aHeader,
        .ofNat 32 topic.length⟩)) := by
  unfold mqttPacketPublish
  simp only [hread]
  rw [if_pos hqos, hid]
  rfl

/-- What is left after the id, and its length. -/
theorem split_of_two_le {curdata behind rest : List UInt8} {msgId : CInt}
    (h : curdata ++ behind = writeInt msgId ++ rest) (hlen : 2 ≤ curdata.length) :
    curdata = writeInt msgId ++ curdata.drop 2 ∧
      BitVec.ofInt 32 (curdata.length - 2) = BitVec.ofNat 32 (curdata.drop 2).length := by
  have htake : curdata.take 2 = writeInt msgId := by
    have := congrArg (List.take 2) h
    rwa [List.take_append_of_le_length hlen, ← length_writeInt msgId, List.take_left] at this
  refine ⟨?_, ?_⟩
  · rw [← htake, List.take_append_drop]
  · have hsub : (curdata.length : ℤ) - 2 = (curdata.length - 2 : ℕ) := by omega
    rw [List.length_drop, hsub]
    exact BitVec.ofInt_natCast 32 (curdata.length - 2)

/-- What is accepted is well formed, and there are no other bytes, or it lacks its id. -/
theorem wellFormed_of_mqttPacketPublish {aHeader : UInt8} {data behind : List UInt8}
    {p : PublishPacket} (h : mqttPacketPublish aHeader data behind = .ok (some (.publish p))) :
    p.header = Header.ofByte aHeader ∧
      (p.WellFormed ∧ data = publishBody p.toPublish p.header.qos ∨ p.LacksId data behind) := by
  rcases hread : readUTFlen data with _ | ⟨topic, curdata⟩
  · simp only [mqttPacketPublish, hread] at h
    cases h
  · obtain ⟨hlt, hdata⟩ := readUTFlen_eq_some_iff.mp hread
    by_cases hqos : 0 < (Header.ofByte aHeader).qos.toNat
    · rcases hid : readInt (curdata ++ behind) with f | ⟨msgId, rest⟩
      · simp only [mqttPacketPublish, hread, if_pos hqos, hid] at h
        cases h
      · rw [mqttPacketPublish_qos hread hqos hid] at h
        obtain ⟨hmsgId, hsplit⟩ := readInt_eq_ok_iff.mp hid
        cases h
        refine ⟨rfl, ?_⟩
        by_cases hlen : 2 ≤ curdata.length
        · obtain ⟨hcurdata, hpayloadlen⟩ := split_of_two_le hsplit hlen
          refine Or.inl ⟨⟨rfl, hlt, hpayloadlen, hmsgId, fun hzero => ?_⟩, ?_⟩
          · exact absurd hqos (Nat.not_lt.mpr hzero.le)
          · rw [hdata, publishBody, if_pos hqos, List.append_assoc, ← hcurdata]
        · exact Or.inr ⟨rfl, hlt, hqos, hmsgId, List.drop_eq_nil_of_le (by omega),
            curdata, rest, by omega, hdata, hsplit, rfl⟩
    · rw [mqttPacketPublish_qos0 hread hqos] at h
      cases h
      refine ⟨rfl, Or.inl ⟨⟨rfl, hlt, rfl, by simp, fun _ => rfl⟩, ?_⟩⟩
      rw [hdata, publishBody, if_neg hqos, List.append_nil]

/-- What is written for a well-formed publication is accepted, whatever the bytes behind it are. -/
theorem mqttPacketPublish_of_wellFormed {aHeader : UInt8} {p : PublishPacket} (h : p.WellFormed)
    (hheader : p.header = Header.ofByte aHeader) (behind : List UInt8) :
    mqttPacketPublish aHeader (publishBody p.toPublish p.header.qos) behind =
      .ok (some (.publish p)) := by
  obtain ⟨htopiclen, htopic, hpayloadlen, hid, hzero⟩ := h
  obtain ⟨⟨topic, payload, payloadlen, msgId⟩, header, topiclen⟩ := p
  simp only at htopiclen htopic hpayloadlen hid hzero hheader ⊢
  subst htopiclen hpayloadlen hheader
  have hread (id : List UInt8) :
      readUTFlen (writeUTF topic ++ id ++ payload) = some (topic, id ++ payload) :=
    readUTFlen_eq_some_iff.mpr ⟨htopic, List.append_assoc _ _ _⟩
  by_cases hqos : 0 < (Header.ofByte aHeader).qos.toNat
  · have happ : (writeInt msgId ++ payload) ++ behind = writeInt msgId ++ (payload ++ behind) :=
      List.append_assoc _ _ _
    have hnext := readInt_eq_ok_iff.mpr ⟨hid, happ⟩
    obtain ⟨-, hpayloadlen⟩ := split_of_two_le happ (by simp [length_writeInt])
    have hdrop : (writeInt msgId ++ payload).drop 2 = payload := by
      rw [← length_writeInt msgId, List.drop_left]
    rw [publishBody, if_pos hqos, mqttPacketPublish_qos (hread _) hqos hnext, hpayloadlen, hdrop]
  · obtain rfl : msgId = 0 := hzero (Nat.eq_zero_of_not_pos hqos)
    rw [publishBody, if_neg hqos, mqttPacketPublish_qos0 (hread []) hqos, List.nil_append]

/-- A publication without its id is accepted, too: the end of the data is not looked at. -/
theorem mqttPacketPublish_of_lacksId {aHeader : UInt8} {data behind : List UInt8}
    {p : PublishPacket} (h : p.LacksId data behind) (hheader : p.header = Header.ofByte aHeader) :
    mqttPacketPublish aHeader data behind = .ok (some (.publish p)) := by
  obtain ⟨htopiclen, htopic, hqos, hmsgId, hpayload, curdata, rest, hlen, hdata, hsplit,
    hpayloadlen⟩ := h
  obtain ⟨⟨topic, payload, payloadlen, msgId⟩, header, topiclen⟩ := p
  simp only at htopiclen htopic hqos hmsgId hpayload hdata hsplit hpayloadlen hheader
  subst htopiclen hpayload hpayloadlen hheader
  have hread := readUTFlen_eq_some_iff.mpr ⟨htopic, hdata⟩
  have hid := readInt_eq_ok_iff.mpr ⟨hmsgId, hsplit⟩
  rw [mqttPacketPublish_qos hread hqos hid, List.drop_eq_nil_of_le (by omega)]

/-- **What is accepted as a publication.**  The packets that are accepted are exactly those that are
written for a well-formed publication, with no other bytes, and those that should have an id and end
before it. -/
theorem mqttPacketPublish_accepts {aHeader : UInt8} {data behind : List UInt8}
    {p : PublishPacket} :
    mqttPacketPublish aHeader data behind = .ok (some (.publish p)) ↔
      p.header = Header.ofByte aHeader ∧
      (p.WellFormed ∧ data = publishBody p.toPublish p.header.qos ∨ p.LacksId data behind) := by
  constructor
  · exact wellFormed_of_mqttPacketPublish
  · rintro ⟨hheader, ⟨hwell, rfl⟩ | hlacks⟩
    · exact mqttPacketPublish_of_wellFormed hwell hheader behind
    · exact mqttPacketPublish_of_lacksId hlacks hheader

/-- A publication with quality of service 1 whose data end after the topic. -/
example : mqttPacketPublish 0x32 [0, 1, 97] [18, 52] =
    .ok (some (.publish ⟨⟨[97], [], -2, 0x1234⟩, .ofByte 0x32, 1⟩)) := by decide

/-- What a receiver makes of bytes that should be one packet, with the bytes `behind` it in the
receiver's buffer. -/
def receivePacket (bytes behind : List UInt8) :
    Option (Except PacketFault (Option Packet × CInt)) :=
  match parsePacket bytes with
  | .done (aHeader, data) [] => some (buildPacket aHeader data behind)
  | _ => none

/-- Bytes that are received as a packet are one frame, and the packet is built from it. -/
theorem parsePacket_of_receivePacket {bytes behind : List UInt8}
    {r : Except PacketFault (Option Packet × CInt)} (h : receivePacket bytes behind = some r) :
    ∃ f, parsePacket bytes = .done f [] ∧
      ∀ behind, receivePacket bytes behind = some (buildPacket f.1 f.2 behind) := by
  unfold receivePacket at h
  split at h
  · next aHeader data hparse =>
      refine ⟨(aHeader, data), hparse, fun behind => ?_⟩
      rw [receivePacket, hparse]
  · cases h

/-- The header of a publication that is sent. -/
def publishHeader (dup : Bool) (qos retained : CInt) : Header :=
  ⟨.publish, dup, qos.truncate 2, retained.getLsbD 0⟩

/-- What is written for a publication. -/
theorem sendPublishBuffers_flatten {pack : Publish} (dup : Bool) {qos : CInt} (retained : CInt)
    (hqos : qos.toNat < 3) (hpayload : pack.payloadlen.toInt = pack.payload.length) :
    ∃ bufs, sendPublishBuffers pack dup qos retained =
      mqttPacketSends (publishHeader dup qos retained) bufs ∧
      bufs.flatten = publishBody pack (qos.truncate 2) := by
  have htake : pack.payload.take pack.payloadlen.toNat = pack.payload := by
    refine List.take_of_length_le ?_
    rw [BitVec.toInt_eq_toNat_cond] at hpayload
    split at hpayload <;> omega
  have htwo : (qos.truncate 2).toNat = qos.toNat := by
    rw [BitVec.truncate_eq_setWidth, BitVec.toNat_setWidth, Nat.mod_eq_of_lt (by omega)]
  have hsign : 0 < qos.toInt ↔ 0 < qos.toNat := by
    rw [BitVec.toInt_eq_toNat_of_lt (by omega)]
    omega
  unfold sendPublishBuffers publishBody
  simp only [htake, htwo, hsign, publishHeader]
  by_cases h : 0 < qos.toNat
  · exact ⟨_, by rw [if_pos h], by simp [if_pos h, writeUTF]⟩
  · exact ⟨_, by rw [if_neg h], by simp [if_neg h, writeUTF]⟩

/-- A publication is built by its function. -/
theorem buildPacket_publish {aHeader : UInt8} {data behind : List UInt8} {p : PublishPacket}
    (htype : (Header.ofByte aHeader).type = .publish)
    (h : mqttPacketPublish aHeader data behind = .ok (some (.publish p))) :
    buildPacket aHeader data behind = .ok (some (.publish p), 0) := by
  simp only [buildPacket, htype]
  rw [if_neg (by decide)]
  simp only [newPackets, h]
  rfl

/-- Only the function for publications builds a publication. -/
theorem mqttPacketPublish_of_buildPacket {aHeader : UInt8} {data behind : List UInt8}
    {p : PublishPacket} {rc : CInt}
    (h : buildPacket aHeader data behind = .ok (some (.publish p), rc)) :
    mqttPacketPublish aHeader data behind = .ok (some (.publish p)) := by
  simp only [buildPacket] at h
  split at h
  · cases h
  · split at h
    · cases h
    · next new hnew =>
        obtain ⟨pack, hpack, h⟩ := Except.exists_of_map h
        obtain rfl : pack = some (.publish p) := (Prod.mk.inj h).1
        revert hnew
        cases (Header.ofByte aHeader).type <;> intro hnew <;> cases hnew
        case publish => exact hpack
        case connack =>
          unfold mqttPacketConnack at hpack
          split at hpack
          · split at hpack <;> cases hpack
          · cases hpack
        case suback =>
          obtain ⟨⟨msgId, _⟩, -, h⟩ := Except.exists_of_bind hpack
          dsimp only at h
          split at h <;> cases h
        case unsuback =>
          obtain ⟨_, -, h⟩ := Except.exists_of_bind hpack
          cases h
        case pingreq | pingresp => cases hpack
        all_goals
          simp only [mqttPacketAck] at hpack
          split at hpack
          · obtain ⟨_, -, h⟩ := Except.exists_of_bind hpack
            cases h
          · cases hpack

/-- The length of the rest of the packet of a publication. -/
theorem length_publishBody (pack : Publish) (qos : BitVec 2) : (publishBody pack qos).length =
    2 + pack.topic.length + (if 0 < qos.toNat then 2 else 0) + pack.payload.length := by
  unfold publishBody writeUTF
  rw [List.length_append, List.length_append, List.length_append, length_writeInt]
  split <;> rfl

section Publication

variable {pack : Publish} {dup : Bool} {qos retained : CInt} {behind : List UInt8}

/-- A publication that keeps to the limits of the format is read back. -/
theorem sendPublish_read_back (hqos : qos.toNat < 3)
    (hpayload : pack.payloadlen.toInt = pack.payload.length)
    (hid : pack.msgId.toNat < 65536) (hzero : qos = 0 → pack.msgId = 0)
    (htopic : pack.topic.length < 65536)
    (hlt : 2 + pack.topic.length + (if 0 < qos.toNat then 2 else 0) + pack.payload.length < 128 ^ 4)
    :
    receivePacket (sendPublishBuffers pack dup qos retained).flatten behind =
      some (.ok (some (.publish ⟨pack, publishHeader dup qos retained,
      .ofNat 32 pack.topic.length⟩), 0)) := by
  obtain ⟨bufs, hbufs, hflatten⟩ := sendPublishBuffers_flatten dup retained hqos hpayload
  have htwo : (qos.truncate 2).toNat = qos.toNat := by
    rw [BitVec.truncate_eq_setWidth, BitVec.toNat_setWidth, Nat.mod_eq_of_lt (by omega)]
  rw [← htwo, ← length_publishBody, ← hflatten] at hlt
  have hparse := parsePacket_packetBytes
      (f := ((publishHeader dup qos retained).byte, bufs.flatten)) [] hlt
  rw [List.append_nil, ← flatten_mqttPacketSends, ← hbufs] at hparse
  rw [receivePacket, hparse]
  refine congrArg some (buildPacket_publish (by rw [Header.ofByte_byte]; rfl) ?_)
  have hwell : PublishPacket.WellFormed
      ⟨pack, publishHeader dup qos retained, .ofNat 32 pack.topic.length⟩ := by
    refine ⟨rfl, htopic, ?_, hid, ?_⟩
    · apply BitVec.eq_of_toInt_eq
      have hle : pack.payload.length ≤ intMax :=
        Int.ofNat_le.mp (hpayload ▸ toInt_le_intMax pack.payloadlen)
      rw [hpayload]
      exact (toInt_ofNat_of_le_intMax hle).symm
    · intro h
      exact hzero (BitVec.eq_of_toNat_eq (htwo.symm.trans h))
  have hheader : publishHeader dup qos retained =
      Header.ofByte (publishHeader dup qos retained).byte :=
    (Header.ofByte_byte _).symm
  have hbuild := mqttPacketPublish_of_wellFormed hwell hheader behind
  rw [hflatten]
  exact hbuild

/-- A publication whose topic or packet is longer than the format allows is not. -/
theorem fits_of_sendPublish_read_back (hqos : qos.toNat < 3)
    (hpayload : pack.payloadlen.toInt = pack.payload.length)
    (h : receivePacket (sendPublishBuffers pack dup qos retained).flatten behind =
        some (.ok (some (.publish ⟨pack, publishHeader dup qos retained,
        .ofNat 32 pack.topic.length⟩), 0))) :
    pack.topic.length < 65536 ∧
      2 + pack.topic.length + (if 0 < qos.toNat then 2 else 0) + pack.payload.length < 128 ^ 4 := by
  obtain ⟨bufs, hbufs, hflatten⟩ := sendPublishBuffers_flatten dup retained hqos hpayload
  have htwo : (qos.truncate 2).toNat = qos.toNat := by
    rw [BitVec.truncate_eq_setWidth, BitVec.toNat_setWidth, Nat.mod_eq_of_lt (by omega)]
  have hlength := length_publishBody pack (qos.truncate 2)
  rw [htwo] at hlength
  rw [hbufs] at h
  unfold receivePacket at h
  split at h
  · next aHeader data hparse =>
      have hbuild := mqttPacketPublish_of_buildPacket (Option.some.inj h)
      have htopic : pack.topic.length < 65536 := by
        rcases (wellFormed_of_mqttPacketPublish hbuild).2 with ⟨hwell, -⟩ | hlacks
        · exact hwell.topic
        · exact hlacks.topic
      refine ⟨htopic, ?_⟩
      by_contra hle
      rw [← hlength, ← hflatten] at hle
      have hpayloadlt : pack.payload.length < 2 ^ 31 := by
        have hlt : pack.payloadlen.toInt < 2 ^ 31 := BitVec.toInt_lt
        omega
      have hlt64 : bufs.flatten.length < 2 ^ 64 := by
        rw [hflatten, hlength]
        split <;> omega
      have hbad := parsePacket_packetBytes_bad
          (f := ((publishHeader dup qos retained).byte, bufs.flatten))
        [] (Nat.not_lt.mp hle) hlt64
      rw [List.append_nil, ← flatten_mqttPacketSends, hparse] at hbad
      cases hbad
  · cases h

/-- **A publication is read back** exactly when its topic has at most 65535 bytes and the rest of
the packet fewer than `128 ^ 4`.  Neither is checked when it is sent. -/
theorem sendPublish_roundtrip_iff (hqos : qos.toNat < 3)
    (hpayload : pack.payloadlen.toInt = pack.payload.length)
    (hid : pack.msgId.toNat < 65536) (hzero : qos = 0 → pack.msgId = 0) :
    receivePacket (sendPublishBuffers pack dup qos retained).flatten behind =
        some (.ok (some (.publish ⟨pack, publishHeader dup qos retained,
        .ofNat 32 pack.topic.length⟩), 0)) ↔
      pack.topic.length < 65536 ∧
        2 + pack.topic.length + (if 0 < qos.toNat then 2 else 0) + pack.payload.length < 128 ^ 4 :=
  ⟨fits_of_sendPublish_read_back hqos hpayload,
    fun ⟨htopic, hlt⟩ => sendPublish_read_back hqos hpayload hid hzero htopic hlt⟩

/-- A topic of 65536 bytes is not read back. -/
theorem sendPublish_roundtrip_long : receivePacket (sendPublishBuffers
      ⟨List.replicate 65536 97, [], 0, 0⟩ false 0 0).flatten [] ≠
    some (.ok (some (.publish ⟨⟨List.replicate 65536 97, [], 0, 0⟩, publishHeader false 0 0,
      .ofNat 32 (List.replicate 65536 (97 : UInt8)).length⟩), 0)) := by
  intro h
  have hfits := (sendPublish_roundtrip_iff (by decide) (by decide) (by decide) (by decide)).mp h
  exact absurd hfits.1 (by rw [List.length_replicate]; decide)

end Publication

/-- **An acknowledgement is read back.** -/
theorem sendAck_roundtrip {type : MsgTypes} {msgid : CInt} (dup : Bool) (behind : List UInt8)
    (htype : type ∈ [MsgTypes.puback, .pubrec, .pubrel, .pubcomp]) (hid : msgid.toNat < 65536) :
    receivePacket (sendAckBuffers type msgid dup).flatten behind =
      some (.ok (some (.ack ⟨⟨type, dup, if type = .pubrel then 1 else 0, false⟩, msgid⟩), 0)) := by
  have hparse := parsePacket_packetBytes
    (f := ((⟨type, dup, if type = .pubrel then 1 else 0, false⟩ : Header).byte,
      [writeInt msgid].flatten))
    [] (by simp [length_writeInt])
  have hread : readInt ([writeInt msgid].flatten ++ behind) = .ok (msgid, behind) := by
    rw [List.flatten_singleton, readInt_eq_ok_iff]
    exact ⟨hid, rfl⟩
  rw [List.append_nil, ← flatten_mqttPacketSends] at hparse
  have hcode : ¬ (type.code < MsgTypes.connect.code ∨ MsgTypes.disconnect.code ≤ type.code) := by
    revert htype
    cases type <;> decide
  have hnew : newPackets type = some mqttPacketAck := by
    revert htype
    cases type <;> first | exact fun _ => rfl | exact fun h => absurd h (by decide)
  rw [receivePacket, sendAckBuffers, hparse]
  have hdisconnect : type ≠ .disconnect := by
    rintro rfl
    exact hcode (by decide)
  simp only [buildPacket, Header.ofByte_byte, hnew, mqttPacketAck, hread]
  rw [if_neg hcode, if_pos hdisconnect]
  rfl
