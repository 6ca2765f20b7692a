import Mathlib.Algebra.Group.Nat.Defs
import Mathlib.Logic.Basic
import LoadFeedback.Header
import LoadFeedback.Proofs.Feedback

/-! A header that was written is read back, whatever follows it, and a header that was read can be written
again. Which headers can be written, and which bytes can be read, is told here bit by bit. -/
namespace LoadFeedback

/-- Two bytes that share no bit. -/
theorem and_eq_zero_iff {b mask : UInt8} :
    b &&& mask = 0 ↔ ∀ i, mask.toNat.testBit i = true → b.toNat.testBit i = false := by
  rw [← UInt8.toNat_inj, UInt8.toNat_and]
  constructor
  · intro h i hMask
    have hBit := congrArg (Nat.testBit · i) h
    simpa [hMask] using hBit
  · intro h
    refine Nat.eq_of_testBit_eq fun i => ?_
    cases hMask : mask.toNat.testBit i with
    | false => simp [hMask]
    | true => simp [h i hMask]

/-- A mask of one bit picks this bit. -/
theorem and_ne_zero_iff {b mask : UInt8} {i : Nat} (h : mask.toNat = 2 ^ i) :
    b &&& mask ≠ 0 ↔ b.toNat.testBit i = true := by
  rw [Ne, and_eq_zero_iff, h]
  simp [Nat.testBit_two_pow]

namespace LoadCode

theorem ofBits?_eq_some_iff {bits : Nat} {code : LoadCode} : ofBits? bits = some code ↔ bits = code.bits := by
  constructor
  · intro h
    unfold ofBits? at h
    split at h <;> cases h <;> rfl
  · rintro rfl
    cases code <;> rfl

theorem bits_pos (code : LoadCode) : 0 < code.bits := by
  cases code <;> decide

/-- Of the values of two bits, only zero is no code. -/
theorem ofBits?_eq_none_iff {bits : Nat} (h : bits < 4) : ofBits? bits = none ↔ bits = 0 :=
  (by decide : ∀ bits < 4, ofBits? bits = none ↔ bits = 0) bits h

end LoadCode

theorem FeedbackField.code?_eq_some_iff {f : FeedbackField} {code : LoadCode} :
    f.code? = some code ↔ f = ofCode code := by
  constructor
  · intro h
    have hBits := LoadCode.ofBits?_eq_some_iff.mp h
    apply ext_toNat
    rw [hBits]
    cases code <;> rfl
  · rintro rfl
    exact code?_ofCode code

namespace Header

/-- A header that can be written: its field goes out as a load factor, or it is a code. -/
def Writable (h : Header) : Prop := h.raw = true ∨ ∃ code, h.feedback = .ofCode code

/-- A first byte with one of the bits set that are clear where a code stands. -/
def HasReserved (first : UInt8) : Prop := ∃ i, 2 ≤ i ∧ i ≤ 5 ∧ first.toNat.testBit i = true

/-- A first byte that can be read: it announces a load factor, or it holds a code and no reserved bit. -/
def Readable (first : UInt8) : Prop :=
  first.toNat.testBit 6 = true ∨ ¬HasReserved first ∧ first.toNat % 4 ≠ 0

theorem and_rawFlag_ne_zero_iff (first : UInt8) :
    first &&& rawFlag ≠ 0 ↔ first.toNat.testBit 6 = true :=
  and_ne_zero_iff rfl

theorem testBit_reserved (i : Nat) :
    (~~~(ackFlag ||| codeMask)).toNat.testBit i = true ↔ 2 ≤ i ∧ i ≤ 6 := by
  rcases Nat.lt_or_ge i 8 with hBit | hBeyond
  · exact (by decide : ∀ i < 8, (~~~(ackFlag ||| codeMask)).toNat.testBit i = true ↔ 2 ≤ i ∧ i ≤ 6) i hBit
  · have hLess : (~~~(ackFlag ||| codeMask)).toNat < 2 ^ i :=
      Nat.lt_of_lt_of_le (UInt8.toNat_lt _) (Nat.pow_le_pow_right (by decide) hBeyond)
    rw [Nat.testBit_lt_two_pow hLess]
    simp only [Bool.false_eq_true, false_iff]
    omega

/-- The flag for load factors is among the bits that a code leaves clear. -/
theorem and_reserved_ne_zero_iff {first : UInt8} (h : ¬first &&& rawFlag ≠ 0) :
    first &&& ~~~(ackFlag ||| codeMask) ≠ 0 ↔ HasReserved first := by
  have hRaw : ¬first.toNat.testBit 6 = true := (and_rawFlag_ne_zero_iff first).not.mp h
  rw [Ne, and_eq_zero_iff, HasReserved]
  simp only [testBit_reserved, not_forall, Bool.not_eq_false]
  constructor
  · rintro ⟨i, ⟨hLow, hHigh⟩, hBit⟩
    have hOther : i ≠ 6 := fun hEq => hRaw (hEq ▸ hBit)
    exact ⟨i, hLow, by omega, hBit⟩
  · rintro ⟨i, hLow, hHigh, hBit⟩
    exact ⟨i, ⟨hLow, by omega⟩, hBit⟩

theorem toNat_and_codeMask (first : UInt8) : (first &&& codeMask).toNat = first.toNat % 4 := by
  rw [UInt8.toNat_and]
  exact Nat.and_two_pow_sub_one_eq_mod first.toNat 2

/-- Everything that the three bytes of a header can say about its field. -/
inductive Says (first second third : UInt8) : Except Fault FeedbackField → Prop where
  | loadFactor (raw : first.toNat.testBit 6 = true) :
      Says first second third (.ok ⟨second.toUInt16 <<< 8 ||| third.toUInt16⟩)
  | code {code : LoadCode} (coded : first.toNat.testBit 6 = false) (clear : ¬HasReserved first)
      (bits : first.toNat % 4 = code.bits) : Says first second third (.ok (.ofCode code))
  | reserved (coded : first.toNat.testBit 6 = false) (set : HasReserved first) :
      Says first second third (.error (.invalidFeedback first.toNat))
  | noCode (coded : first.toNat.testBit 6 = false) (clear : ¬HasReserved first)
      (bits : first.toNat % 4 = 0) : Says first second third (.error (.invalidFeedback 0))

theorem says_readFeedback (first second third : UInt8) :
    Says first second third (readFeedback first second third) := by
  unfold readFeedback
  split
  · next hRaw => exact .loadFactor ((and_rawFlag_ne_zero_iff first).mp hRaw)
  · next hCoded =>
      have hFlag : first.toNat.testBit 6 = false :=
        Bool.eq_false_iff.mpr ((and_rawFlag_ne_zero_iff first).not.mp hCoded)
      have hReserved := and_reserved_ne_zero_iff hCoded
      split
      · next hSet => exact .reserved hFlag (hReserved.mp hSet)
      · next hClear =>
          simp only [toNat_and_codeMask]
          split
          · next code hCode =>
              exact .code hFlag (hReserved.not.mp hClear) (LoadCode.ofBits?_eq_some_iff.mp hCode)
          · next hNone =>
              have hZero := (LoadCode.ofBits?_eq_none_iff (Nat.mod_lt _ (by decide))).mp hNone
              rw [hZero]
              exact .noCode hFlag (hReserved.not.mp hClear) hZero

theorem read_cons (first second third : UInt8) (rest : List UInt8) :
    read (first :: second :: third :: rest) =
      (readFeedback first second third).map fun f =>
        (⟨if first &&& ackFlag ≠ 0 then .ack else .data, first &&& rawFlag ≠ 0, f⟩, size) := by
  rw [read]
  cases readFeedback first second third <;> rfl

theorem read_of_short {buffer : List UInt8} (h : buffer.length < size) :
    read buffer = .error .bufferTooShort := by
  match buffer, h with
  | [], _ | [_], _ | [_, _], _ => rfl

/-- A buffer is too short, or it begins with the bytes of a header. -/
theorem short_or_cons (buffer : List UInt8) :
    buffer.length < size ∨
      ∃ first second third rest, buffer = first :: second :: third :: rest := by
  match buffer with
  | [] | [_] | [_, _] => exact Or.inl (by simp [size])
  | first :: second :: third :: rest => exact Or.inr ⟨first, second, third, rest, rfl⟩

/-- Two bytes hold a value of sixteen bits, the high byte first. -/
theorem value_of_bytes (value : UInt16) :
    (value >>> 8).toUInt8.toUInt16 <<< 8 ||| value.toUInt8.toUInt16 = value := by
  have hValue := value.toNat_lt
  have hHigh : (value >>> 8).toUInt8.toUInt16.toNat = value.toNat / 256 := by
    simp only [UInt8.toNat_toUInt16, UInt16.toNat_toUInt8, UInt16.toNat_shiftRight]
    rw [Nat.shiftRight_eq_div_pow]
    exact Nat.mod_eq_of_lt (Nat.div_lt_of_lt_mul hValue)
  have hLow : value.toUInt8.toUInt16.toNat = value.toNat % 256 := by
    rw [UInt8.toNat_toUInt16, UInt16.toNat_toUInt8]
  have hShift : (value.toNat / 256) <<< 8 % 2 ^ 16 = (value.toNat / 256) <<< 8 := by
    rw [Nat.shiftLeft_eq]
    omega
  rw [← UInt16.toNat_inj, UInt16.toNat_or, UInt16.toNat_shiftLeft, hHigh, hLow]
  calc
    _ = (value.toNat / 256) <<< 8 ||| value.toNat % 256 := by rw [← hShift]; rfl
    _ = (value.toNat / 256) <<< 8 + value.toNat % 256 :=
      (Nat.shiftLeft_add_eq_or_of_lt (Nat.mod_lt _ (by decide)) _).symm
    _ = value.toNat := by
      rw [Nat.shiftLeft_eq]
      exact Nat.div_add_mod' _ _

/-- What is written at the start of a buffer can be read there, whatever follows. -/
theorem read_of_bytes {h : Header} {bs : List UInt8} (written : h.bytes = .ok bs) :
    bs.length = size ∧ ∀ rest, read (bs ++ rest) = .ok (h, size) := by
  obtain ⟨kind, raw, field⟩ := h
  cases raw with
  | true =>
      cases written
      refine ⟨rfl, fun rest => ?_⟩
      have hFlag : (kindFlag kind ||| rawFlag) &&& rawFlag ≠ 0 := by cases kind <;> decide
      have hField : readFeedback (kindFlag kind ||| rawFlag) (field.value >>> 8).toUInt8
          field.value.toUInt8 = .ok field := by
        rw [readFeedback, if_pos hFlag, value_of_bytes]
      simp only [List.cons_append, read_cons, hField]
      cases kind <;> rfl
  | false =>
      cases hCode : field.code? with
      | none => simp [bytes, hCode] at written
      | some code =>
          rw [FeedbackField.code?_eq_some_iff] at hCode
          subst hCode
          simp only [bytes, FeedbackField.code?_ofCode, Bool.false_eq_true, ↓reduceIte] at written
          cases written
          refine ⟨rfl, fun rest => ?_⟩
          cases kind <;> cases code <;> rfl

theorem bytes_cases (h : Header) :
    (h.Writable ∧ ∃ bs, h.bytes = .ok bs) ∨
      (¬h.Writable ∧ h.bytes = .error (.invalidFeedback h.feedback.value.toNat)) := by
  unfold bytes Writable
  split
  · next hRaw => exact Or.inl ⟨Or.inl hRaw, _, rfl⟩
  · next hCoded =>
      simp only [← FeedbackField.code?_eq_some_iff]
      cases h.feedback.code? with
      | none => exact Or.inr ⟨by simp [hCoded], rfl⟩
      | some code => exact Or.inl ⟨Or.inr ⟨code, rfl⟩, _, rfl⟩

/-- Everything that the writing of a header can come to. -/
inductive Writes (h : Header) (buffer : List UInt8) : Attempt (List UInt8) Nat → Prop where
  | tooShort (short : buffer.length < size) : Writes h buffer (.error .bufferTooShort, buffer)
  | noCode (room : size ≤ buffer.length) (none : ¬h.Writable) :
      Writes h buffer (.error (.invalidFeedback h.feedback.value.toNat), buffer)
  | written (room : size ≤ buffer.length) (writable : h.Writable) {bs : List UInt8}
      (bytes : h.bytes = .ok bs) : Writes h buffer (.ok size, bs ++ buffer.drop size)

theorem writes_write (h : Header) (buffer : List UInt8) : Writes h buffer (h.write buffer) := by
  unfold write
  split
  · next hShort => exact .tooShort hShort
  · next hRoom =>
      have hRoom := Nat.le_of_not_lt hRoom
      rcases h.bytes_cases with ⟨hWritable, bs, hBytes⟩ | ⟨hNone, hBytes⟩
      · rw [hBytes]
        exact .written hRoom hWritable hBytes
      · rw [hBytes]
        exact .noCode hRoom hNone

/-- Everything that the reading of a header can come to. -/
inductive Reads : List UInt8 → Except Fault (Header × Nat) → Prop where
  | tooShort {buffer : List UInt8} (short : buffer.length < size) :
      Reads buffer (.error .bufferTooShort)
  | reserved {first second third : UInt8} {rest : List UInt8}
      (coded : first.toNat.testBit 6 = false) (set : HasReserved first) :
      Reads (first :: second :: third :: rest) (.error (.invalidFeedback first.toNat))
  | noCode {first second third : UInt8} {rest : List UInt8}
      (coded : first.toNat.testBit 6 = false) (clear : ¬HasReserved first)
      (bits : first.toNat % 4 = 0) :
      Reads (first :: second :: third :: rest) (.error (.invalidFeedback 0))
  | read {first second third : UInt8} {rest : List UInt8} {h : Header}
      (readable : Readable first) (writable : h.Writable) :
      Reads (first :: second :: third :: rest) (.ok (h, size))

theorem reads_read (buffer : List UInt8) : Reads buffer (read buffer) := by
  rcases short_or_cons buffer with hShort | ⟨first, second, third, rest, rfl⟩
  · rw [read_of_short hShort]
    exact .tooShort hShort
  · rw [read_cons]
    have hSays := says_readFeedback first second third
    generalize readFeedback first second third = result at hSays ⊢
    cases hSays with
    | loadFactor raw =>
        exact .read (Or.inl raw) (Or.inl (decide_eq_true ((and_rawFlag_ne_zero_iff first).mpr raw)))
    | @code code coded clear bits =>
        exact .read (Or.inr ⟨clear, bits ▸ Nat.ne_of_gt code.bits_pos⟩) (Or.inr ⟨code, rfl⟩)
    | reserved coded set => exact .reserved coded set
    | noCode coded clear bits => exact .noCode coded clear bits

theorem read_congr {buffer other : List UInt8} (h : other.take size = buffer.take size) :
    read other = read buffer := by
  have hLength := congrArg List.length h
  simp only [List.length_take] at hLength
  rcases short_or_cons buffer with hShort | ⟨first, second, third, rest, rfl⟩
  · rw [read_of_short hShort, read_of_short (by omega)]
  · rcases short_or_cons other with hShort | ⟨first', second', third', rest', rfl⟩
    · simp only [List.length_cons, size] at hLength hShort
      omega
    · simp only [size, List.take_succ_cons, List.cons.injEq] at h
      obtain ⟨rfl, rfl, rfl, _⟩ := h
      rw [read_cons, read_cons]

section

variable {h : Header} {buffer : List UInt8}

theorem exists_write_iff : (∃ n, (h.write buffer).1 = .ok n) ↔ size ≤ buffer.length ∧ h.Writable := by
  have hWrites := h.writes_write buffer
  generalize h.write buffer = result at hWrites ⊢
  cases hWrites with
  | tooShort short => simp [Nat.not_le_of_lt short]
  | noCode room none => simp [none]
  | written room writable bytes => simp [room, writable]

/-- Only the start of the buffer is written, with what can be read there. -/
theorem write_eq_ok {n : Nat} {after : List UInt8} (written : h.write buffer = (.ok n, after)) :
    n = size ∧ after.length = buffer.length ∧ after.drop size = buffer.drop size ∧
      ∀ trailing, read (after.take size ++ trailing) = .ok (h, size) := by
  have hWrites := h.writes_write buffer
  rw [written] at hWrites
  cases hWrites with
  | @written room writable bs bytes =>
      obtain ⟨hSize, hBack⟩ := read_of_bytes bytes
      refine ⟨rfl, ?_, ?_, fun trailing => ?_⟩
      · rw [List.length_append, List.length_drop, hSize, Nat.add_sub_cancel' room]
      · rw [← hSize, List.drop_left]
      · rw [← hSize, List.take_left, hSize]
        exact hBack trailing

theorem write_eq_error {fault : Fault} {after : List UInt8}
    (refused : h.write buffer = (.error fault, after)) :
    after = buffer ∧ (fault = .bufferTooShort ∧ buffer.length < size ∨
      fault = .invalidFeedback h.feedback.value.toNat ∧ ¬h.Writable) := by
  have hWrites := h.writes_write buffer
  rw [refused] at hWrites
  cases hWrites with
  | tooShort short => exact ⟨rfl, Or.inl ⟨rfl, short⟩⟩
  | noCode room none => exact ⟨rfl, Or.inr ⟨rfl, none⟩⟩

theorem exists_read_iff : (∃ g n, read buffer = .ok (g, n)) ↔
    size ≤ buffer.length ∧ ∃ first, buffer.head? = some first ∧ Readable first := by
  have hReads := reads_read buffer
  generalize hResult : read buffer = result at hReads
  cases hReads with
  | tooShort short => simp [Nat.not_le_of_lt short]
  | reserved coded set => simp [Readable, coded, set]
  | noCode coded clear bits => simp [Readable, coded, bits]
  | read readable writable => simp [size, readable]

theorem read_eq_error {fault : Fault} (refused : read buffer = .error fault) :
    fault = .bufferTooShort ∧ buffer.length < size ∨
    ∃ first, buffer.head? = some first ∧ ¬Readable first ∧
      (fault = .invalidFeedback first.toNat ∧ HasReserved first ∨
        fault = .invalidFeedback 0 ∧ ¬HasReserved first) := by
  have hReads := reads_read buffer
  rw [refused] at hReads
  cases hReads with
  | tooShort short => exact Or.inl ⟨rfl, short⟩
  | @reserved first second third rest coded set =>
      exact Or.inr ⟨first, rfl, by simp [Readable, coded, set], Or.inl ⟨rfl, set⟩⟩
  | @noCode first second third rest coded clear bits =>
      exact Or.inr ⟨first, rfl, by simp [Readable, coded, bits], Or.inr ⟨rfl, clear⟩⟩

/-- What was read can be written wherever there is room. -/
theorem read_eq_ok {n : Nat} (done : read buffer = .ok (h, n)) :
    n = size ∧ ∀ target : List UInt8, size ≤ target.length →
      ∃ after, h.write target = (.ok size, after) ∧ read after = .ok (h, size) := by
  have hReads := reads_read buffer
  rw [done] at hReads
  cases hReads with
  | read readable writable =>
      refine ⟨rfl, fun target hRoom => ?_⟩
      obtain ⟨n, hWritten⟩ := exists_write_iff.mpr ⟨hRoom, writable⟩
      obtain ⟨rfl, _, _, hBack⟩ := write_eq_ok (Prod.ext hWritten rfl)
      refine ⟨_, Prod.ext hWritten rfl, ?_⟩
      simpa only [List.take_append_drop] using hBack ((h.write target).2.drop size)

end

/-- A header is written exactly if there is room and its field goes out as a load factor or is a code.
It takes three bytes, nothing behind them changes, and it is read back whatever follows. Otherwise the
buffer stays as it was. A header is read exactly where three bytes are there and the first one announces a
load factor, or holds a code and no reserved bit; what follows the three has no part in it. Every header that
was read can be written wherever there is room, and is read back from there. Nothing else is refused: there
is no room, or the field is no code. -/
theorem reading_inverts_writing (h : Header) (buffer : List UInt8) :
    size = 3 ∧
    ((∃ n, (h.write buffer).1 = .ok n) ↔
      size ≤ buffer.length ∧ (h.raw = true ∨ ∃ code, h.feedback = .ofCode code)) ∧
    (∀ n after, h.write buffer = (.ok n, after) →
      n = size ∧ after.length = buffer.length ∧ after.drop size = buffer.drop size ∧
        ∀ trailing, read (after.take size ++ trailing) = .ok (h, size)) ∧
    (∀ fault after, h.write buffer = (.error fault, after) →
      after = buffer ∧ (fault = .bufferTooShort ∧ buffer.length < size ∨
        fault = .invalidFeedback h.feedback.value.toNat ∧ ¬h.Writable)) ∧
    ((∃ g n, read buffer = .ok (g, n)) ↔
      size ≤ buffer.length ∧ ∃ first, buffer.head? = some first ∧
        (first.toNat.testBit 6 = true ∨ ¬HasReserved first ∧ first.toNat % 4 ≠ 0)) ∧
    (∀ other : List UInt8, other.take size = buffer.take size → read other = read buffer) ∧
    (∀ fault, read buffer = .error fault →
      fault = .bufferTooShort ∧ buffer.length < size ∨
      ∃ first, buffer.head? = some first ∧ ¬Readable first ∧
        (fault = .invalidFeedback first.toNat ∧ HasReserved first ∨
          fault = .invalidFeedback 0 ∧ ¬HasReserved first)) ∧
    (∀ g n, read buffer = .ok (g, n) →
      n = size ∧ ∀ target : List UInt8, size ≤ target.length →
        ∃ after, g.write target = (.ok size, after) ∧ read after = .ok (g, size)) :=
  ⟨rfl, exists_write_iff, fun _ _ => write_eq_ok, fun _ _ => write_eq_error, exists_read_iff,
    fun _ => read_congr, fun _ => read_eq_error, fun _ _ => read_eq_ok⟩

/-- A code is read whatever stands in the other two bytes, and written with zeros there. -/
example :
    let h : Header := ⟨.ack, false, .ofCode .high⟩
    read [0x82, 7, 9, 1] = .ok (h, 3) ∧ h.write [5, 5, 5, 1] = (.ok 3, [0x82, 0, 0, 1]) :=
  ⟨rfl, rfl⟩

end Header
end LoadFeedback
