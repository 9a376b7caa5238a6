import Bacula.Lib.BsockLaw

/-!
# What the peer receives

A run of calls on one socket and of receptions on the other. The peer gets each message, and the
stream stays in step, exactly when each message meets a condition on the two sockets before it.
-/
namespace Bacula.Bsock

open WordFlags

/-- Whether the message is compressed behind an offset. -/
def apart (z : Lz4) (s : BSOCK) (m : Message) : Bool :=
  m.offset ≠ 0 && (packed z s.m_compress m).isSome

/-- What `recv` returns for a message. -/
def answer (z : Lz4) (s : BSOCK) (m : Message) : ℤ :=
  if m.command then BNET_COMMAND
  else if m.msglen.toInt < 0 then BNET_SIGNAL
  else if apart z s m then (m.msglen.toNat - m.offset : ℕ)
  else m.msglen.toNat

/-- The peer has the message. -/
structure Delivered (z : Lz4) (s : BSOCK) (m : Message) (nbytes : ℤ) (p : BSOCK) : Prop where
  nbytes : nbytes = answer z s m
  msglen : p.msglen = if apart z s m then .ofNat 32 (m.msglen.toNat - m.offset) else m.msglen
  bytes : 0 < m.msglen.toInt →
    if apart z s m then
      p.msg.read 0 m.offset = m.payload.take m.offset ∧
        p.cmsg.read 0 (m.msglen.toNat - m.offset) = m.payload.drop m.offset
    else p.msg.read 0 m.msglen.toNat = m.payload

/-- The message is still in the socket that sent it. -/
def Kept (m : Message) (s : BSOCK) : Prop :=
  s.msglen = m.msglen ∧ ∀ i, 0 ≤ i → s.msg.bytes i = m.msg.bytes i

/-- When a message without data gets through. -/
def MeetsQuiet (m : Message) : Prop :=
  m.flags = 0 ∨ m.msglen.toInt < 0 ∧ m.msglen &&& BNET_HDR_EXTEND ≠ 0 ∧ m.command = false ∧
    m.msg.read 0 4 = htonl (m.word false)

/-- When a message with data gets through. -/
def MeetsData (z : Lz4) (s p : BSOCK) (m : Message) : Prop :=
  match packed z s.m_compress m with
  | none => m.msglen.toNat ≤ 1000000 ∧ (m.offset ≠ 0 → ∃ d,
      unpacked z (m.payload.drop m.offset) 7 (max p.cmsg.size (m.msglen.toNat * 4)) = some d ∧
        d.length = m.msglen.toNat)
  | some c => c.length + m.offset ≤ 1000000 ∧
      p.Fits (c.length + m.offset) (m.msglen.toNat - m.offset) ∧
      (m.offset ≠ 0 → (s.cmsg.write (m.msglen.toNat - m.offset : ℕ) [0]).read 0 m.offset =
        m.payload.take m.offset)

/-- When a message gets through. -/
def Meets (z : Lz4) (s p : BSOCK) (m : Message) : Prop :=
  p.is_stop = false ∧ if m.msglen.toInt ≤ 0 then MeetsQuiet m else MeetsData z s p m

variable {z : Lz4} {s p : BSOCK} {m : Message} {tail : List UInt8}

theorem Message.length_payload (m : Message) : m.payload.length = m.msglen.toNat :=
  Buffer.length_read

theorem not_packed_of_quiet (quiet : m.msglen.toInt ≤ 0) (on : Bool) : packed z on m = none := by
  rw [packed, if_neg fun all => by omega]

/-- A closed or broken peer receives nothing. -/
theorem recv_stopped (stopped : p.is_stop = true) (packet : List UInt8) :
    (recv z p packet).1 = BNET_HARDEOF := by
  have stopped' : (p.reset 0).is_stop = true := stopped
  unfold recv
  change (if (p.reset 0).is_stop = true then _ else _ : ℤ × BSOCK × List UInt8).1 = _
  rw [if_pos stopped']

theorem answer_cases : answer z s m = BNET_COMMAND ∨ BNET_SIGNAL ≤ answer z s m := by
  unfold answer
  split
  · exact Or.inl rfl
  · right
    split
    · exact le_refl _
    · split <;> exact le_trans (by decide) (Int.natCast_nonneg _)

theorem answer_ne_hardeof : answer z s m ≠ BNET_HARDEOF := by
  intro same
  rcases answer_cases (z := z) (s := s) (m := m) with other | above
  · exact absurd (other.symm.trans same) (by decide)
  · exact absurd (same ▸ above) (by decide)

theorem answer_ne_error : answer z s m ≠ BNET_ERROR := by
  intro same
  rcases answer_cases (z := z) (s := s) (m := m) with other | above
  · exact absurd (other.symm.trans same) (by decide)
  · exact absurd (same ▸ above) (by decide)

theorem apart_of_quiet (quiet : m.msglen.toInt ≤ 0) : apart z s m = false := by
  rw [apart, not_packed_of_quiet quiet]
  exact Bool.and_false _

theorem or_flag_negative {x : BitVec 32} (negative : x.toInt < 0) (k : ℕ) :
    (x ||| BitVec.twoPow 32 k).toInt < 0 := by
  have top : x.msb = true := by simpa [BitVec.msb_eq_toInt] using negative
  have image : (x ||| BitVec.twoPow 32 k).msb = true := by rw [BitVec.msb_or, top, Bool.true_or]
  simpa [BitVec.msb_eq_toInt] using image

theorem firstWord_of_flags {w F : BitVec 32} (some : F ≠ 0) :
    firstWord w F false = w ||| BNET_HDR_EXTEND := by
  simp [firstWord, show F ≠ 0#32 from some]

theorem firstWord_of_none {w : BitVec 32} : firstWord w 0 false = w := by simp [firstWord]

theorem kept_of_none {s' : BSOCK} (msglen : s'.msglen = m.msglen)
    (msg : ∀ i, 0 ≤ i → s'.msg.bytes i = (m.msg.write 0 (secondWord 0)).bytes i) : Kept m s' := by
  refine ⟨msglen, fun i above => ?_⟩
  rw [msg i above, secondWord, if_neg (by simp)]
  exact Buffer.bytes_write_of_ge (by simpa using above)

/-- The flags of a message without data overwrite its first bytes. -/
theorem kept_iff {F : BitVec 32} (some : F ≠ 0) {s' : BSOCK} (msglen : s'.msglen = m.msglen)
    (msg : ∀ i, 0 ≤ i → s'.msg.bytes i = (m.msg.write 0 (secondWord F)).bytes i) :
    Kept m s' ↔ m.msg.read 0 4 = htonl F := by
  rw [secondWord, if_pos some] at msg
  constructor
  · intro kept
    rw [← Buffer.read_write' (b := m.msg) (p := 0) (length_htonl F)]
    exact Buffer.read_congr fun i above _ => by rw [← msg i above, kept.2 i above]
  · intro same
    refine ⟨msglen, fun i above => ?_⟩
    rw [msg i above]
    exact Buffer.write_read_self (by rw [length_htonl]; exact same) i

theorem delivered_signal_iff {word : BitVec 32} {p' : BSOCK} (negative : m.msglen.toInt < 0)
    (msglen : p'.msglen = word) :
    Delivered z s m BNET_SIGNAL p' ↔ m.command = false ∧ word = m.msglen := by
  have quiet := apart_of_quiet (z := z) (s := s) negative.le
  constructor
  · rintro ⟨nbytes, length, -⟩
    rw [quiet, msglen] at length
    refine ⟨?_, length⟩
    by_contra command
    rw [answer, if_pos (by simpa using command)] at nbytes
    exact absurd nbytes (by decide)
  · rintro ⟨command, same⟩
    refine ⟨?_, by rw [quiet, msglen, same]; rfl, fun positive => absurd positive (by omega)⟩
    rw [answer, command, if_neg (by simp), if_pos negative]

theorem quiet_iff (ready : p.is_stop = false) (quiet : m.msglen.toInt ≤ 0)
    {s' : BSOCK} (msglen : s'.msglen = m.msglen)
    (msg : ∀ i, 0 ≤ i → s'.msg.bytes i = (m.msg.write 0 (secondWord (m.word false))).bytes i)
    {out : ℤ × BSOCK × List UInt8}
    (received : recv z p (htonl (firstWord m.msglen (m.word false) false) ++ tail) = out) :
    (Kept m s' ∧ out.2.2 = tail ∧ Delivered z s m out.1 out.2.1) ↔ MeetsQuiet m := by
  subst received
  have one := apart_of_quiet (z := z) (s := s) quiet
  unfold MeetsQuiet
  by_cases none : m.flags = 0
  · have word : m.word false = 0 := word_eq_zero.mpr none
    have command : m.command = false := by simp [Message.command, none]
    rw [word] at msg
    rw [word, firstWord_of_none]
    refine iff_of_true ⟨kept_of_none msglen msg, ?_⟩ (Or.inl none)
    rcases quiet.lt_or_eq with negative | zero
    · rw [recv_signal ready negative]
      exact ⟨rfl, (delivered_signal_iff negative rfl).mpr ⟨command, rfl⟩⟩
    · have length : m.msglen = 0 := BitVec.eq_of_toInt_eq (by rw [zero]; rfl)
      rw [length, recv_empty ready]
      refine ⟨rfl, ?_, by rw [one, length]; rfl, fun some => absurd some (by omega)⟩
      rw [answer, command, one, length]
      rfl
  · have word : m.word false ≠ 0 := mt word_eq_zero.mp none
    rw [firstWord_of_flags word]
    rcases quiet.lt_or_eq with negative | zero
    · rw [BNET_HDR_EXTEND, recv_signal ready (or_flag_negative negative 29),
        delivered_signal_iff negative rfl, kept_iff word msglen msg, and_flag_ne_zero (by decide)]
      have marked : m.msglen ||| BitVec.twoPow 32 29 = m.msglen ↔ m.msglen.getLsbD 29 = true := by
        refine ⟨fun same => ?_, or_flag_eq_self⟩
        by_contra clear
        exact or_flag_ne_self (by decide) (by simpa using clear) same
      simp only [none, false_or, negative, true_and, marked]
      constructor
      · rintro ⟨kept, command, bit⟩
        exact ⟨bit, command, kept⟩
      · rintro ⟨bit, command, kept⟩
        exact ⟨kept, command, bit⟩
    · have length : m.msglen = 0 := BitVec.eq_of_toInt_eq (by rw [zero]; rfl)
      refine iff_of_false ?_ fun meets => meets.elim none fun rest => absurd rest.1 (by omega)
      rw [length, show (0 : BitVec 32) ||| BNET_HDR_EXTEND = BNET_HDR_EXTEND by decide]
      rintro ⟨-, same, delivered⟩
      exact answer_ne_hardeof (delivered.nbytes.symm.trans (recv_announced ready same))

theorem got_natCast (command : Bool) (n : ℕ) :
    got command n = if command then BNET_COMMAND else (n : ℤ) := by
  have other : (n : ℤ) ≠ BNET_ERROR := by rw [BNET_ERROR]; omega
  simp [got, other]

/-- How much of the message the peer has to find in `msglen`. -/
def rest (z : Lz4) (s : BSOCK) (m : Message) : ℕ :=
  if apart z s m then m.msglen.toNat - m.offset else m.msglen.toNat

/-- A message with data is delivered by its number of bytes and the bytes. -/
theorem delivered_data_iff (positive : 0 < m.msglen.toInt) {n : ℕ} (int : n < 2 ^ 32)
    {p' : BSOCK} (msglen : p'.msglen = .ofNat 32 n) :
    Delivered z s m (got m.command n) p' ↔ n = rest z s m ∧
      if apart z s m then
        p'.msg.read 0 m.offset = m.payload.take m.offset ∧
          p'.cmsg.read 0 (m.msglen.toNat - m.offset) = m.payload.drop m.offset
      else p'.msg.read 0 m.msglen.toNat = m.payload := by
  have expected : (if apart z s m then .ofNat 32 (m.msglen.toNat - m.offset) else m.msglen) =
      BitVec.ofNat 32 (rest z s m) := by
    unfold rest
    split
    · rfl
    · rw [BitVec.ofNat_toNat, BitVec.setWidth_eq]
  have below : rest z s m < 2 ^ 32 := by
    have small := m.msglen.isLt
    unfold rest
    split <;> omega
  have nbytes : answer z s m = got m.command (rest z s m) := by
    rw [got_natCast, answer, rest, if_neg (not_lt.mpr positive.le)]
    split
    · rfl
    · split <;> rfl
  constructor
  · rintro ⟨-, length, bytes⟩
    refine ⟨?_, bytes positive⟩
    have same := congrArg BitVec.toNat (msglen.symm.trans (length.trans expected))
    rw [BitVec.toNat_ofNat, BitVec.toNat_ofNat, Nat.mod_eq_of_lt int, Nat.mod_eq_of_lt below] at same
    exact same
  · rintro ⟨rfl, bytes⟩
    exact ⟨nbytes.symm, msglen.trans expected.symm, fun _ => bytes⟩

/-- The packet of a message as the peer gets it into `msg`. -/
def arrived (z : Lz4) (s p : BSOCK) (m : Message) : BSOCK :=
  (p.reset (m.word (packed z s.m_compress m).isSome)).filled (body z s m)
    (.ofNat 32 (body z s m).length)

theorem length_body (accepted : m.Accepted) (positive : 0 < m.msglen.toInt) :
    0 < (body z s m).length ∧ (body z s m).length ≤ 4000000 := by
  have value := toNat_of_pos positive
  have size := accepted.size positive
  unfold body
  cases packing : packed z s.m_compress m with
  | none =>
      simp only [Message.payload, Buffer.length_read]
      omega
  | some c =>
      obtain ⟨-, filled, saved, -⟩ := length_packed packing
      simp only [List.length_append, Buffer.length_read]
      omega

theorem read_arrived :
    (arrived z s p m).msg.read 0 (body z s m).length = body z s m := by
  exact Buffer.read_write

/-- What `recv` does with a packet that is not too big. -/
theorem recv_arrived (accepted : m.Accepted) (ready : p.is_stop = false)
    (positive : 0 < m.msglen.toInt) (fits : (body z s m).length ≤ 1000000) :
    recv z p (htonl (firstWord (.ofNat 32 (body z s m).length)
        (m.word (packed z s.m_compress m).isSome)
        ((packed z s.m_compress m).isSome && m.offset = 0)) ++
      (secondWord (m.word (packed z s.m_compress m).isSome) ++ (body z s m ++ tail))) =
    if (packed z s.m_compress m).isSome || m.offset ≠ 0 then
      ((uncompress z (arrived z s p m) m.command (body z s m).length).1,
        (uncompress z (arrived z s p m) m.command (body z s m).length).2, tail)
    else (got m.command (body z s m).length, { arrived z s p m with
      msg := (arrived z s p m).msg.write (body z s m).length [0] }, tail) := by
  obtain ⟨some, below⟩ := length_body (z := z) (s := s) accepted positive
  have value : (BitVec.ofNat 32 (body z s m).length).toNat = (body z s m).length :=
    Nat.mod_eq_of_lt (by omega)
  have int : (BitVec.ofNat 32 (body z s m).length).toInt = (body z s m).length := by
    rw [BitVec.toInt_eq_toNat_of_lt (by omega), value]
  have command : decide ((p.reset (m.word (packed z s.m_compress m).isSome)).m_flags &&&
      BNET_IS_CMD ≠ 0) = m.command := by
    rw [Bool.eq_iff_iff, decide_eq_true_iff]
    exact word_command
  have offset : decide ((p.reset (m.word (packed z s.m_compress m).isSome)).m_flags &&&
      BNET_OFFSET ≠ 0) = decide (m.offset ≠ 0) := decide_eq_decide.mpr (word_behind accepted)
  rw [recv_frame ready (by omega), recvPacket_data (by omega) (by omega) value.symm, value]
  have test (k : Bool) : ((k && decide (m.offset = 0)) || decide (m.offset ≠ 0)) =
      (k || decide (m.offset ≠ 0)) := by
    by_cases none : m.offset = 0 <;> simp [none]
  rw [offset, command, test]
  rfl

/-- The bytes that are uncompressed. -/
theorem behind_body (accepted : m.Accepted) :
    behind (m.word (packed z s.m_compress m).isSome) (body z s m) =
      match packed z s.m_compress m with
      | none => m.payload.drop m.offset
      | some c => c := by
  have offset := word_offset (m := m) (k := (packed z s.m_compress m).isSome)
  have test := word_behind (k := (packed z s.m_compress m).isSome) accepted
  unfold behind body
  by_cases none : m.offset = 0
  · rw [if_neg (mt test.mp (not_not.mpr none))]
    cases packed z s.m_compress m with
    | none => simp [none]
    | some c => simp [none, Buffer.read_zero]
  · rw [if_pos (test.mpr none), offset]
    cases packed z s.m_compress m with
    | none => rfl
    | some c => simp

theorem unpacked_arrived (lawful : z.Lawful) {c : List UInt8}
    (packing : packed z s.m_compress m = some c) {n : ℕ} (accepted : m.Accepted) :
    unpacked z c 7 n = if m.msglen.toNat - m.offset ≤ 2097152 ∨ 65536 ≤ n then
      some (m.payload.drop m.offset) else none := by
  obtain ⟨long, -, -, done⟩ := length_packed packing
  have value := toNat_of_pos (m := m) (by omega)
  have size := accepted.size (by omega)
  have length : (m.payload.drop m.offset).length = m.msglen.toNat - m.offset := by
    rw [List.length_drop, Message.payload, Buffer.length_read]
  rw [unpacked_packed lawful done, length]
  exact if_congr (capacities_reach (by omega)) rfl rfl

/-- A message that was compressed. -/
theorem packed_iff (lawful : z.Lawful) (accepted : m.Accepted)
    (positive : 0 < m.msglen.toInt) {c : List UInt8} (packing : packed z s.m_compress m = some c)
    (fits : (body z s m).length ≤ 1000000) {out : ℤ × BSOCK}
    (received : out = uncompress z (arrived z s p m) m.command (body z s m).length) :
    Delivered z s m out.1 out.2 ↔ MeetsData z s p m := by
  obtain ⟨long, filled, saved, -⟩ := length_packed packing
  have value := toNat_of_pos positive
  have size := accepted.size positive
  have whole : (body z s m).length = c.length + m.offset := by
    simp only [body, packing, List.length_append, Buffer.length_read]
    omega
  have source : behind (arrived z s p m).m_flags (body z s m) = c :=
    (behind_body accepted).trans (by rw [packing])
  have answer := unpacked_arrived lawful packing
    (n := max p.cmsg.size ((c.length + m.offset) * 4)) accepted
  have meets : MeetsData z s p m ↔ p.Fits (c.length + m.offset) (m.msglen.toNat - m.offset) ∧
      (m.offset ≠ 0 → (s.cmsg.write (m.msglen.toNat - m.offset : ℕ) [0]).read 0 m.offset =
        m.payload.take m.offset) := by
    rw [MeetsData, packing]
    exact and_iff_right (whole ▸ fits)
  rw [meets, received]
  by_cases room : p.Fits (c.length + m.offset) (m.msglen.toNat - m.offset)
  · rw [if_pos (by exact room), ← whole] at answer
    have succeeds : unpacked z (behind (arrived z s p m).m_flags (body z s m)) 7
        (max (arrived z s p m).cmsg.size ((body z s m).length * 4)) =
          some (m.payload.drop m.offset) := by
      rw [source]
      exact answer
    obtain ⟨cmsg, msg, same, done⟩ := uncompress_some (k := m.command) read_arrived succeeds
    have length : (m.payload.drop m.offset).length = m.msglen.toNat - m.offset := by
      rw [List.length_drop, Message.payload, Buffer.length_read]
    rw [done, length, delivered_data_iff positive (by omega) rfl]
    by_cases none : m.offset = 0
    · have together : apart z s m = false := by simp [apart, none]
      have plain : (arrived z s p m).m_flags &&& BNET_OFFSET = 0 :=
        not_not.mp (mt (word_behind accepted).mp (not_not.mpr none))
      refine iff_of_true ⟨by simp [rest, together, none], ?_⟩ ⟨room, fun some => absurd none some⟩
      simp only [together, Bool.false_eq_true, if_false, plain, if_true, none, Nat.sub_zero,
        List.drop_zero]
      rw [Buffer.read_write_before (by simp),
        Buffer.read_write' m.length_payload]
    · have separate : apart z s m = true := by simp [apart, none, packing]
      have marked : (arrived z s p m).m_flags &&& BNET_OFFSET ≠ 0 :=
        (word_behind accepted).mpr none
      have front : (msg.write (m.msglen.toNat - m.offset : ℕ) [0]).read 0 m.offset =
          (s.cmsg.write (m.msglen.toNat - m.offset : ℕ) [0]).read 0 m.offset := by
        have header : (arrived z s p m).msg.read 0 m.offset = s.cmsg.read 0 m.offset := by
          rw [← Buffer.take_read (n := (body z s m).length) (by omega), read_arrived, body, packing]
          exact List.take_left' Buffer.length_read
        refine Buffer.read_congr fun i above below => Buffer.bytes_write_congr ?_
        have one := Buffer.read_eq_iff.mp header i.toNat (by omega)
        rw [same]
        rwa [zero_add, Int.toNat_of_nonneg above] at one
      simp only [separate, if_true, if_neg marked, rest, true_and, front]
      rw [Buffer.read_write' length]
      simp [room, none]
  · rw [if_neg (by exact room), ← whole] at answer
    have fails := uncompress_none (z := z) (b := arrived z s p m) (k := m.command)
      read_arrived (by rw [source]; exact answer)
    refine iff_of_false (fun delivered => ?_) fun both => room both.1
    exact answer_ne_error (delivered.nbytes.symm.trans fails)

/-- A message that was not compressed, with an offset all the same. -/
theorem unpacked_iff (lawful : z.Lawful) (accepted : m.Accepted) (positive : 0 < m.msglen.toInt)
    (packing : packed z s.m_compress m = none) (some : m.offset ≠ 0)
    (fits : (body z s m).length ≤ 1000000) {out : ℤ × BSOCK}
    (received : out = uncompress z (arrived z s p m) m.command (body z s m).length) :
    Delivered z s m out.1 out.2 ↔ MeetsData z s p m := by
  have whole : body z s m = m.payload := by rw [body, packing]
  have size : (body z s m).length = m.msglen.toNat := by
    rw [whole, Message.payload, Buffer.length_read]
  have source : behind (arrived z s p m).m_flags (body z s m) = m.payload.drop m.offset :=
    (behind_body accepted).trans (by rw [packing])
  have marked : (arrived z s p m).m_flags &&& BNET_OFFSET ≠ 0 := (word_behind accepted).mpr some
  have together : apart z s m = false := by simp [apart, packing]
  have meets : MeetsData z s p m ↔ ∃ d, unpacked z (m.payload.drop m.offset) 7
      (max p.cmsg.size (m.msglen.toNat * 4)) = Option.some d ∧ d.length = m.msglen.toNat := by
    rw [MeetsData, packing]
    exact ⟨fun both => both.2 some, fun found => ⟨size ▸ fits, fun _ => found⟩⟩
  rw [meets, received]
  cases answer : unpacked z (m.payload.drop m.offset) 7 (max p.cmsg.size (m.msglen.toNat * 4)) with
  | none =>
      have fails := uncompress_none (z := z) (b := arrived z s p m) (k := m.command)
        read_arrived (by rw [source, size]; exact answer)
      refine iff_of_false (fun delivered => ?_) ?_
      · exact answer_ne_error (delivered.nbytes.symm.trans fails)
      · rintro ⟨d, found, -⟩
        cases found
  | some d =>
      have succeeds : unpacked z (behind (arrived z s p m).m_flags (body z s m)) 7
          (max (arrived z s p m).cmsg.size ((body z s m).length * 4)) = Option.some d := by
        rw [source, size]
        exact answer
      obtain ⟨cmsg, msg, same, done⟩ := uncompress_some (k := m.command) read_arrived succeeds
      have int : d.length < 2 ^ 31 := by
        obtain ⟨cap, -, found⟩ := List.exists_of_findSome?_eq_some answer
        cases result : z.decompress_safe (m.payload.drop m.offset) cap with
        | error left => simp [result, Except.toOption] at found
        | ok d' =>
            obtain rfl : d' = d := by simpa [result, Except.toOption] using found
            exact lawful.int result
      rw [done, delivered_data_iff positive (by omega) rfl]
      simp only [together, Bool.false_eq_true, if_false, rest, if_neg marked]
      constructor
      · rintro ⟨length, -⟩
        exact ⟨d, rfl, length⟩
      · rintro ⟨d', found, length⟩
        obtain rfl := Option.some.inj found
        refine ⟨length, ?_⟩
        rw [Buffer.read_write_before (by omega), ← size]
        refine (Buffer.read_congr (c := (arrived z s p m).msg) fun i _ _ => by rw [same]).trans ?_
        exact read_arrived.trans whole

theorem data_iff (lawful : z.Lawful) (accepted : m.Accepted) (ready : p.is_stop = false)
    (positive : 0 < m.msglen.toInt) {out : ℤ × BSOCK × List UInt8}
    (received : recv z p (htonl (firstWord (.ofNat 32 (body z s m).length)
        (m.word (packed z s.m_compress m).isSome)
        ((packed z s.m_compress m).isSome && m.offset = 0)) ++
      (secondWord (m.word (packed z s.m_compress m).isSome) ++ (body z s m ++ tail))) = out) :
    (out.2.2 = tail ∧ Delivered z s m out.1 out.2.1) ↔ MeetsData z s p m := by
  obtain ⟨some, below⟩ := length_body (z := z) (s := s) accepted positive
  by_cases fits : (body z s m).length ≤ 1000000
  · rw [recv_arrived accepted ready positive fits] at received
    cases packing : packed z s.m_compress m with
    | some c =>
        rw [packing, Option.isSome_some, Bool.true_or, if_pos rfl] at received
        subst received
        exact (and_iff_right rfl).trans
          (packed_iff lawful accepted positive packing fits rfl)
    | none =>
        by_cases none : m.offset = 0
        · rw [packing, if_neg (by simp [none])] at received
          subst received
          have whole : body z s m = m.payload := by rw [body, packing]
          have size : (body z s m).length = m.msglen.toNat := by rw [whole, m.length_payload]
          have together : apart z s m = false := by simp [apart, none]
          have meets : MeetsData z s p m := by
            rw [MeetsData, packing]
            exact ⟨size ▸ fits, fun other => absurd none other⟩
          refine iff_of_true ⟨rfl, (delivered_data_iff positive (by omega) rfl).mpr ?_⟩ meets
          simp only [together, Bool.false_eq_true, if_false, rest, size, true_and]
          rw [Buffer.read_write_before (by omega), ← size, read_arrived, whole]
        · rw [packing, if_pos (by simp [none])] at received
          subst received
          exact (and_iff_right rfl).trans
            (unpacked_iff lawful accepted positive packing none fits rfl)
  · have value : (BitVec.ofNat 32 (body z s m).length).toNat = (body z s m).length :=
      Nat.mod_eq_of_lt (by omega)
    have big : 1000000 < (BitVec.ofNat 32 (body z s m).length).toInt := by
      rw [BitVec.toInt_eq_toNat_of_lt (by omega), value]
      omega
    rw [recv_frame ready (by omega), recvPacket_big big] at received
    subst received
    refine iff_of_false (fun both => ?_) fun meets => fits ?_
    · have longer := congrArg List.length both.1
      rw [List.length_append] at longer
      omega
    · unfold MeetsData at meets
      unfold body
      cases packing : packed z s.m_compress m with
      | none =>
          rw [packing] at meets
          exact m.length_payload.trans_le meets.1
      | some c =>
          rw [packing] at meets
          have sum := meets.1
          rw [List.length_append, Buffer.length_read]
          omega

/-- One message, from the socket that sends it to the peer. -/
theorem message_iff (lawful : z.Lawful) (accepted : m.Accepted) (sender : s.is_stop = false) :
    ∃ s' packet, m.send z s = some (true, s', packet) ∧ s'.is_stop = false ∧ ∀ p tail,
      ((Kept m s' ∧ (recv z p (packet ++ tail)).2.2 = tail ∧
        Delivered z s m (recv z p (packet ++ tail)).1 (recv z p (packet ++ tail)).2.1) ↔
          Meets z s p m) := by
  obtain ⟨s', packet, sent, msglen, still, quiet, data⟩ := send_spec (z := z) accepted s sender
  refine ⟨s', packet, sent, still, fun p tail => ?_⟩
  cases ready : p.is_stop with
  | true =>
      refine iff_of_false (fun all => ?_) fun meets => absurd (ready.symm.trans meets.1) (by decide)
      exact answer_ne_hardeof (all.2.2.nbytes.symm.trans (recv_stopped ready _))
  | false =>
      rw [Meets, and_iff_right ready]
      by_cases small : m.msglen.toInt ≤ 0
      · obtain ⟨rfl, msg⟩ := quiet small
        rw [if_pos small]
        exact quiet_iff ready small msglen msg rfl
      · obtain ⟨rfl, msg⟩ := data (not_le.mp small)
        rw [if_neg small, and_iff_right (show Kept m s' from ⟨msglen, msg⟩)]
        refine data_iff lawful accepted ready (not_le.mp small) ?_
        rw [List.append_assoc, List.append_assoc]

/-- A call on the sending socket. -/
inductive Call where
  | send (m : Message)
  | signal (code : BitVec 32)

/-- What the socket holds when `send` is entered. -/
def Call.message (s : BSOCK) : Call → Message
  | .send m => m
  | .signal code => { msg := s.msg, msglen := code, flags := 0 }

def Call.run (z : Lz4) (s : BSOCK) : Call → Option (Bool × BSOCK × List UInt8)
  | .send m => m.send z s
  | .signal code => Bsock.signal z s code

/-- Messages within the limits of `send`, and signals. -/
def Call.Accepted : Call → Prop
  | .send m => m.Accepted
  | .signal code => code.toInt ≤ 0

theorem Call.run_eq (call : Call) : call.run z s = (call.message s).send z s := by
  cases call <;> rfl

theorem Call.Accepted.message {call : Call} (accepted : call.Accepted) :
    (call.message s).Accepted := by
  cases call with
  | send m => exact accepted
  | signal code =>
      exact ⟨by simp [Call.message], by simp [Call.message, Message.offset],
        fun positive => absurd positive (not_lt.mpr (by exact accepted))⟩

/-- The bytes that calls put on the wire. -/
inductive Sends (z : Lz4) : BSOCK → List Call → List UInt8 → Prop
  | nil (s : BSOCK) : Sends z s [] []
  | cons {s s' : BSOCK} {call : Call} {calls : List Call} {packet rest : List UInt8} :
      call.run z s = some (true, s', packet) → Sends z s' calls rest →
        Sends z s (call :: calls) (packet ++ rest)

/-- The peer receives what the calls sent, one after the other, each from exactly the bytes that
were sent for it, with `tail` behind the last. -/
def RoundTrips (z : Lz4) (tail : List UInt8) : BSOCK → BSOCK → List Call → Prop
  | _, _, [] => True
  | s, p, call :: calls => ∃ s' packet rest,
      call.run z s = some (true, s', packet) ∧ Sends z s' calls rest ∧
      Kept (call.message s) s' ∧
      (recv z p (packet ++ (rest ++ tail))).2.2 = rest ++ tail ∧
      Delivered z s (call.message s) (recv z p (packet ++ (rest ++ tail))).1
        (recv z p (packet ++ (rest ++ tail))).2.1 ∧
      RoundTrips z tail s' (recv z p (packet ++ (rest ++ tail))).2.1 calls

/-- Each message meets its condition when it is sent. -/
def AllMeet (z : Lz4) : BSOCK → BSOCK → List Call → Prop
  | _, _, [] => True
  | s, p, call :: calls => Meets z s p (call.message s) ∧ ∀ s' packet,
      call.run z s = some (true, s', packet) → AllMeet z s' (recv z p packet).2.1 calls

theorem exists_sends (lawful : z.Lawful) {calls : List Call}
    (accepted : ∀ call ∈ calls, call.Accepted) (sender : s.is_stop = false) :
    ∃ bytes, Sends z s calls bytes := by
  induction calls generalizing s with
  | nil => exact ⟨[], .nil s⟩
  | cons call calls ih =>
      obtain ⟨s', packet, sent, still, -⟩ := message_iff lawful
        ((accepted call List.mem_cons_self).message (s := s)) sender
      obtain ⟨bytes, rest⟩ := ih (fun one member => accepted one (List.mem_cons_of_mem _ member)) still
      exact ⟨packet ++ bytes, .cons (call.run_eq.trans sent) rest⟩

/-- The messages round trip exactly when each meets its condition. -/
theorem round_trips_iff (lawful : z.Lawful) (calls : List Call)
    (accepted : ∀ call ∈ calls, call.Accepted) (sender : s.is_stop = false) (p : BSOCK)
    (tail : List UInt8) :
    RoundTrips z tail s p calls ↔ AllMeet z s p calls := by
  induction calls generalizing s p with
  | nil => exact Iff.rfl
  | cons call calls ih =>
      obtain ⟨s', packet, sent, still, received⟩ := message_iff lawful
        ((accepted call List.mem_cons_self).message (s := s)) sender
      have others : ∀ one ∈ calls, one.Accepted :=
        fun one member => accepted one (List.mem_cons_of_mem _ member)
      have run : call.run z s = some (true, s', packet) := call.run_eq.trans sent
      have apart' (behind : List UInt8) (meets : Meets z s p (call.message s)) :
          (recv z p (packet ++ behind)).2.1 = (recv z p packet).2.1 := by
        have alone := ((received p []).mpr meets).2.2
        rw [List.append_nil] at alone
        rw [recv_more (fun same => answer_ne_hardeof (alone.nbytes.symm.trans same))
          fun same => answer_ne_error (alone.nbytes.symm.trans same)]
      constructor
      · rintro ⟨s'', packet', rest, run', -, kept, left, delivered, trips⟩
        obtain ⟨rfl, rfl⟩ : s' = s'' ∧ packet = packet' := by
          simpa using Option.some.inj (run.symm.trans run')
        have meets := (received p (rest ++ tail)).mp ⟨kept, left, delivered⟩
        refine ⟨meets, fun s'' packet' run' => ?_⟩
        obtain ⟨rfl, rfl⟩ : s' = s'' ∧ packet = packet' := by
          simpa using Option.some.inj (run.symm.trans run')
        rw [apart' _ meets] at trips
        exact (ih others still _).mp trips
      · rintro ⟨meets, further⟩
        obtain ⟨rest, sends⟩ := exists_sends lawful others still
        obtain ⟨kept, left, delivered⟩ := (received p (rest ++ tail)).mpr meets
        refine ⟨s', packet, rest, run, sends, kept, left, delivered, ?_⟩
        rw [apart' _ meets]
        exact (ih others still _).mpr (further s' packet run)

/-- Forty times the letter `a`, and the block that it is compressed to. -/
def letters : List UInt8 := List.replicate 40 97

def letterBlock : List UInt8 := [0x1F, 97, 1, 0, 15, 0x50, 97, 97, 97, 97, 97]

/-- A compression of that text alone. -/
def letterLz4 : Lz4 where
  compressBound n := n + n / 255 + 16
  compress_default src cap :=
    if src = letters ∧ letterBlock.length ≤ cap then .ok letterBlock else .error []
  decompress_safe src n := if src = letterBlock ∧ 40 ≤ n then .ok letters else .error []

theorem letterLz4_lawful : letterLz4.Lawful where
  undoes := by
    intro src cap c n answer enough
    simp only [letterLz4] at answer ⊢
    split at answer
    · rename_i known
      obtain rfl := Except.ok.inj answer
      rw [known.1] at enough ⊢
      rw [if_pos ⟨rfl, enough⟩]
    · exact absurd answer (by simp)
  refuses := by
    intro src cap c n answer short
    simp only [letterLz4] at answer ⊢
    split at answer
    · rename_i known
      rw [known.1] at short
      exact ⟨[], if_neg fun both => absurd both.2 (not_le.mpr short)⟩
    · exact absurd answer (by simp)
  int := by
    intro src n d answer
    simp only [letterLz4] at answer
    split at answer
    · obtain rfl := Except.ok.inj answer
      decide
    · exact absurd answer (by simp)

/-- A new socket. -/
def newSocket (m_compress : Bool) : BSOCK :=
  { msg := ⟨fun _ => 0, 4096⟩, cmsg := ⟨fun _ => 0, 4096⟩, msglen := 0, m_flags := 0, errors := 0
    m_terminated := false, m_closed := false, m_compress }

/-- Two bytes behind no more than a header of one byte are sent as they are, but the peer is told
that they are compressed. -/
theorem offset_uncompressed :
    letterLz4.Lawful ∧ (newSocket false).is_stop = false ∧
      (∀ call ∈ [Call.send ⟨⟨fun i => if i = 0 then 65 else 66, 4096⟩, 2, 1⟩], call.Accepted) ∧
      ¬RoundTrips letterLz4 [] (newSocket false) (newSocket false)
        [.send ⟨⟨fun i => if i = 0 then 65 else 66, 4096⟩, 2, 1⟩] := by
  have accepted : Message.Accepted ⟨⟨fun i => if i = 0 then 65 else 66, 4096⟩, 2, 1⟩ :=
    ⟨by decide, by decide, fun _ => ⟨by decide, by decide⟩⟩
  refine ⟨letterLz4_lawful, rfl, ?_, ?_⟩
  · intro call member
    rw [List.mem_singleton.mp member]
    exact accepted
  · rintro ⟨s', packet, rest, run, -, kept, left, delivered, -⟩
    obtain ⟨s'', packet', sent, -, received⟩ := message_iff letterLz4_lawful accepted
      (s := newSocket false) rfl
    obtain ⟨rfl, rfl⟩ : s'' = s' ∧ packet' = packet := by
      simpa using Option.some.inj (sent.symm.trans run)
    have meets := ((received _ _).mp ⟨kept, left, delivered⟩).2
    rw [if_neg (by decide)] at meets
    obtain ⟨d, found, -⟩ := meets.2 (by decide)
    have some := congrArg Option.isSome found
    rw [Option.isSome_some] at some
    exact absurd some (by decide)

/-- A compressed command and a signal. -/
theorem letters_round_trip :
    RoundTrips letterLz4 [1, 2] (newSocket true) (newSocket true)
      [.send ⟨⟨fun _ => 97, 4096⟩, 40, BNET_IS_CMD⟩, .signal (-1)] := by
  refine (round_trips_iff letterLz4_lawful _ ?_ rfl _ _).mpr ⟨⟨rfl, ?_⟩, fun s' packet run => ?_⟩
  · intro call member
    rcases List.mem_cons.mp member with rfl | other
    · exact ⟨by decide, by decide, fun _ => ⟨by decide, by decide⟩⟩
    · rw [List.mem_singleton.mp other]
      exact (by decide : (-1 : BitVec 32).toInt ≤ 0)
  · rw [if_neg (by decide)]
    have packing : packed letterLz4 (newSocket true).m_compress
        ⟨⟨fun _ => 97, 4096⟩, 40, BNET_IS_CMD⟩ = some letterBlock := by decide
    rw [Call.message, MeetsData, packing]
    exact ⟨by decide, Or.inl (by decide), fun some => absurd rfl some⟩
  · have bytes := congrArg (Option.map fun result => result.2.2) run
    have written : packet = [0x60, 0, 0, 11, 0x10, 0, 0, 0] ++ letterBlock := by
      refine (Option.some.inj (bytes.symm.trans ?_))
      decide
    rw [written]
    refine ⟨⟨by decide, ?_⟩, fun _ _ _ => trivial⟩
    rw [if_pos (by exact (by decide : (-1 : BitVec 32).toInt ≤ 0))]
    exact Or.inl rfl

end Bacula.Bsock
