import Bacula.Stored.Block
import Bacula.Lib.Bcrc32

/-! What the checksum of a block is good for: a block that was altered on the volume is not
accepted. -/
namespace Bacula
open ByteCodec

theorem serialUint32_of_length {digits : List UInt8} (four : digits.length = 4) :
    ∃ v, digits = serialUint32 v := by
  have small : number digits < 2 ^ 32 := by
    have bound := number_lt digits
    rw [four] at bound
    simpa using bound
  refine ⟨UInt32.ofNat (number digits), ?_⟩
  rw [serialUint32, UInt32.toNat_ofNat_of_lt' small, ← four, bigEndian_number]

/-- A wrong checksum is refused when the whole block is there. -/
theorem unserBlockEnd_mismatch {dev : BlockDevice} (checks : dev.doChecksum = true)
    {block : DevBlock} {head : BlockHead} (bhl : ℕ)
    (sane : head.blockLen.toNat ≤ MAX_BLOCK_LENGTH) (long : BLKHDR_CS_LENGTH ≤ head.blockLen.toNat)
    (whole : head.blockLen.toNat ≤ block.readLen)
    (wrong : dev.bcrc32 ((block.buf.drop BLKHDR_CS_LENGTH).take
      (head.blockLen.toNat - BLKHDR_CS_LENGTH)) ≠ head.checkSum) :
    unserBlockEnd dev block head bhl = .ok none := by
  simp only [unserBlockEnd, not_lt.mpr sane, if_false, decide_eq_true whole, checks, Bool.and_true,
    if_true, not_lt.mpr long, wrong]

theorem exists_cut {α : Type} {l : List α} {n : ℕ} (room : n ≤ l.length) :
    ∃ front behind, l = front ++ behind ∧ front.length = n :=
  ⟨l.take n, l.drop n, (List.take_append_drop n l).symm, List.length_take_of_le room⟩

/-- Whatever the other fields of a header have become, the checksum decides. -/
theorem unserBlockHeader_mismatch {dev : BlockDevice} (checks : dev.doChecksum = true)
    {read : DevBlock} {checkSum blockLen : UInt32} (behind : List UInt8)
    (buf : read.buf = serialUint32 checkSum ++ (serialUint32 blockLen ++ behind))
    (enough : 16 ≤ behind.length) (sane : blockLen.toNat ≤ MAX_BLOCK_LENGTH)
    (long : BLKHDR_CS_LENGTH ≤ blockLen.toNat) (whole : blockLen.toNat ≤ read.readLen)
    (wrong : dev.bcrc32 ((serialUint32 blockLen ++ behind).take (blockLen.toNat - BLKHDR_CS_LENGTH)) ≠
      checkSum) : unserBlockHeader dev read = .ok none := by
  have covered : read.buf.drop BLKHDR_CS_LENGTH = serialUint32 blockLen ++ behind := by
    rw [buf]
    exact List.drop_left' (serialUint32_length _)
  obtain ⟨number, behind, rfl, four⟩ := exists_cut (show 4 ≤ behind.length by omega)
  obtain ⟨blockNumber, rfl⟩ := serialUint32_of_length four
  rw [List.length_append, four] at enough
  obtain ⟨id, behind, rfl, idLength⟩ := exists_cut (show 4 ≤ behind.length by omega)
  rw [List.length_append, idLength] at enough
  obtain ⟨session, behind, rfl, four⟩ := exists_cut (show 4 ≤ behind.length by omega)
  obtain ⟨sessionId, rfl⟩ := serialUint32_of_length four
  rw [List.length_append, four] at enough
  obtain ⟨time, behind, rfl, four⟩ := exists_cut (show 4 ≤ behind.length by omega)
  obtain ⟨sessionTime, rfl⟩ := serialUint32_of_length four
  have head : unserBlockHead.run read.buf = .ok (⟨checkSum, blockLen, blockNumber, id⟩,
      serialUint32 sessionId ++ (serialUint32 sessionTime ++ behind)) := by
    rw [buf]
    simp -implicitDefEqProofs only [unserBlockHead, StateT.run_bind, StateT.run_pure, ok_bind,
      unserialUint32_serial, bytes_append _ _ _ idLength]
    rfl
  have session : unserSession.run (serialUint32 sessionId ++ (serialUint32 sessionTime ++ behind)) =
      .ok ((sessionId, sessionTime), behind) := by
    simp -implicitDefEqProofs only [unserSession, StateT.run_bind, StateT.run_pure, ok_bind,
      unserialUint32_serial]
    rfl
  simp only [unserBlockHeader, head]
  split
  · split
    · exact unserBlockEnd_mismatch checks _ sane long whole (covered ▸ wrong)
    · rfl
  · split
    · simp only [session]
      split
      · exact unserBlockEnd_mismatch checks _ sane long whole (covered ▸ wrong)
      · rfl
    · rfl

/-- A written block, and what is read after a change within four bytes behind its length field. -/
theorem altered_block_accepted_iff {dev : BlockDevice} (crc : dev.bcrc32 = Bcrc32.bcrc32)
    (checks : dev.doChecksum = true) {block : DevBlock} {payload : List UInt8}
    (filled : block.Filled dev payload) (data : payload ≠ []) (sane : block.binbuf ≤ MAX_BLOCK_LENGTH) :
    ∃ checkSum padding next,
      writeBlockToDev dev block =
        some ([serialUint32 checkSum ++ ((headerTail block ++ payload) ++ padding)], next) ∧
      ∀ front burst burst' behind, headerTail block ++ payload = front ++ (burst ++ behind) →
        4 ≤ front.length → burst'.length = burst.length → burst.length ≤ 4 →
        ∀ read : DevBlock, block.binbuf ≤ read.readLen →
          read.buf = serialUint32 checkSum ++ ((front ++ (burst' ++ behind)) ++ padding) →
          ((∃ accepted, unserBlockHeader dev read = .ok (some accepted)) ↔ burst' = burst) := by
  obtain ⟨checkSum, padding, next, written, checked, -⟩ := writeBlockToDev_spec filled data
  refine ⟨checkSum, padding, next, by rw [List.append_assoc]; exact written, ?_⟩
  intro front burst burst' behind covered outside length short read whole buf
  have size : front.length + (burst'.length + behind.length) = block.binbuf - BLKHDR_CS_LENGTH := by
    have lengths := congrArg List.length covered
    have binbuf := filled.binbuf
    simp only [List.length_append, headerTail_length] at lengths
    unfold WRITE_BLKHDR_LENGTH BLKHDR2_LENGTH at binbuf
    unfold BLKHDR_CS_LENGTH
    omega
  have positive : 0 < payload.length := List.length_pos_of_ne_nil data
  have header := filled.binbuf
  unfold WRITE_BLKHDR_LENGTH BLKHDR2_LENGTH at header
  constructor
  · rintro ⟨accepted, result⟩
    by_contra changed
    -- the length field is in front of the change
    obtain ⟨len, front, rfl, four⟩ := exists_cut outside
    have same : serialUint32 (UInt32.ofNat block.binbuf) = len := by
      rw [headerTail, List.append_assoc, List.append_assoc len] at covered
      exact List.append_inj_left covered (by rw [serialUint32_length, four])
    subst same
    have small : block.binbuf < 2 ^ 32 := lt_of_le_of_lt sane (by decide)
    have lenNat : (UInt32.ofNat block.binbuf).toNat = block.binbuf :=
      UInt32.toNat_ofNat_of_lt' small
    rw [List.length_append, serialUint32_length] at size
    have altered : dev.bcrc32 ((serialUint32 (UInt32.ofNat block.binbuf) ++
        (front ++ (burst' ++ (behind ++ padding)))).take (block.binbuf - BLKHDR_CS_LENGTH)) ≠
          checkSum := by
      have cut : (serialUint32 (UInt32.ofNat block.binbuf) ++
          (front ++ (burst' ++ (behind ++ padding)))).take (block.binbuf - BLKHDR_CS_LENGTH) =
            (serialUint32 (UInt32.ofNat block.binbuf) ++ front) ++ (burst' ++ behind) := by
        have parts : serialUint32 (UInt32.ofNat block.binbuf) ++
            (front ++ (burst' ++ (behind ++ padding))) =
              ((serialUint32 (UInt32.ofNat block.binbuf) ++ front) ++ (burst' ++ behind)) ++
                padding := by
          simp only [List.append_assoc]
        rw [parts]
        apply List.take_left'
        simp only [List.length_append, serialUint32_length]
        omega
      rw [cut, crc, checked checks, crc, covered]
      intro collision
      exact changed (Bcrc32.bcrc32_burst length (length ▸ short) collision)
    have refused : unserBlockHeader dev read = .ok none := by
      refine unserBlockHeader_mismatch checks (front ++ (burst' ++ (behind ++ padding))) ?_ ?_
        (by rw [lenNat]; exact sane) ?_ (by rw [lenNat]; exact whole) (by rw [lenNat]; exact altered)
      · simpa only [List.append_assoc] using buf
      · simp only [List.length_append]
        unfold BLKHDR_CS_LENGTH at size
        omega
      · rw [lenNat]
        unfold BLKHDR_CS_LENGTH
        omega
    rw [refused] at result
    cases result
  · rintro rfl
    rw [← covered, List.append_assoc] at buf
    exact ⟨_, unserBlockHeader_written filled.binbuf sane checked buf whole⟩

/-- A disk with small blocks. -/
def disk : BlockDevice where
  bufLen := 32
  isTape := false
  minBlockSize := 0
  maxBlockSize := 32
  doChecksum := true
  bcrc32 := Bcrc32.bcrc32
  tape := fun isTape => absurd isTape Bool.false_ne_true

/-- A block with two bytes. -/
def twoBytes : DevBlock := (newBlock disk).put [1, 2]

theorem twoBytes_filled : twoBytes.Filled disk [1, 2] where
  memory := by decide
  bufLen := by decide
  bufp := by decide
  binbuf := by decide
  fits := by decide
  contents := by decide

theorem altered_block_accepted_iff_twoBytes : ∃ checkSum padding next,
    writeBlockToDev disk twoBytes =
      some ([serialUint32 checkSum ++ ((headerTail twoBytes ++ [1, 2]) ++ padding)], next) ∧
    ∀ read : DevBlock, twoBytes.binbuf ≤ read.readLen →
      read.buf = serialUint32 checkSum ++ (((headerTail twoBytes ++ [1]) ++ ([9] ++ [])) ++ padding) →
      ¬∃ accepted, unserBlockHeader disk read = .ok (some accepted) := by
  obtain ⟨checkSum, padding, next, written, decides⟩ :=
    altered_block_accepted_iff rfl rfl twoBytes_filled (List.cons_ne_nil 1 [2]) (by decide)
  refine ⟨checkSum, padding, next, written, fun read whole buf accepted => ?_⟩
  have same := (decides (headerTail twoBytes ++ [1]) [2] [9] [] (by simp) (by simp) rfl (by decide)
    read whole buf).mp accepted
  exact absurd same (by decide)

end Bacula
