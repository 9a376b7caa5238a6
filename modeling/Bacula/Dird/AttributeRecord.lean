import Bacula.Dird.Catreq
import Bacula.Filed.StripPath

/-! What the File daemon and the Director read in a record of attributes. -/
namespace Bacula.Catreq
open Scan ByteCodec

theorem skipSpaces_solid {s : List UInt8} (solid : Solid s) (some : s ≠ []) (rest : List UInt8) :
    Scan.skipSpaces (s ++ rest) = s ++ rest := by
  obtain ⟨b, s, rfl⟩ := List.exists_cons_of_ne_nil some
  rw [Scan.skipSpaces, List.cons_append, List.dropWhile_cons, (solid b List.mem_cons_self).2]
  rfl

theorem updCat_solid : Solid (ascii "UpdCat") := by
  unfold Solid
  decide +kernel

theorem fileAttributes_solid : Solid (ascii "FileAttributes") := by
  unfold Solid
  decide +kernel

theorem jobId_solid (jobId : ℕ) : Solid (ascii "JobId=" ++ decimal jobId) := by
  intro b inside
  rcases List.mem_append.mp inside with front | digit
  · have all : Solid (ascii "JobId=") := by
      unfold Solid
      decide +kernel
    exact all b front
  · exact decimal_solid jobId b digit

/-- The header and the record come back from the message. -/
theorem scanMessage_run (jobId : ℕ) (volSessionId volSessionTime : UInt32) (fileIndex stream : Int32)
    (data : List UInt8) :
    scanMessage (dirUpdateFileAttributes jobId volSessionId volSessionTime fileIndex stream data) =
      .ok (⟨volSessionId, volSessionTime, fileIndex, stream, UInt32.ofNat data.length⟩, data) := by
  have words : dirUpdateFileAttributes jobId volSessionId volSessionTime fileIndex stream data =
      ascii "UpdCat" ++ blank ::
        ((ascii "JobId=" ++ decimal jobId) ++ blank :: (ascii "FileAttributes" ++ blank ::
        (serialUint32 volSessionId ++ (serialUint32 volSessionTime ++ (serialInt32 fileIndex ++
          (serialInt32 stream ++ (serialUint32 (UInt32.ofNat data.length) ++ data))))))) := by
    rw [List.append_assoc]
    rfl
  rw [words, scanMessage]
  rw [skipNonspaces_solid updCat_solid, skipSpaces_blank,
    skipSpaces_solid (jobId_solid jobId) (List.append_ne_nil_of_left_ne_nil (by decide) _),
    skipNonspaces_solid (jobId_solid jobId), skipSpaces_blank,
    skipSpaces_solid fileAttributes_solid (by decide), skipNonspaces_solid fileAttributes_solid,
    List.tail_cons, unserSdHeader, run_bind_ok (unserialUint32_serial _ _),
    run_bind_ok (unserialUint32_serial _ _), run_bind_ok (unserialInt32_serial _ _),
    run_bind_ok (unserialInt32_serial _ _), run_bind_ok (unserialUint32_serial _ _)]
  rfl

/-! ## Reading a record -/

/-- Blanks are skipped up to the end of the string. -/
theorem skipSpaces_nul (name rest : List UInt8) :
    Scan.skipSpaces (name ++ 0 :: rest) = Scan.skipSpaces name ++ 0 :: rest := by
  induction name with
  | nil => rfl
  | cons b name ih =>
      rw [Scan.skipSpaces] at ih
      rw [Scan.skipSpaces, Scan.skipSpaces, List.cons_append, List.dropWhile_cons,
        List.dropWhile_cons, ih]
      split <;> rfl

theorem skipSpaces_terminated {name : List UInt8} (terminated : 0 ∉ name) : 0 ∉ Scan.skipSpaces name :=
  fun inside => terminated ((List.dropWhile_suffix _).subset inside)

section

variable {name attribs link attribsEx : List UInt8} (name_terminated : 0 ∉ name)
  (attribs_terminated : 0 ∉ attribs)
  (link_terminated : 0 ∉ link) (attribsEx_terminated : 0 ∉ attribsEx)

include name_terminated attribs_terminated link_terminated attribsEx_terminated

theorem unpack_attributesRecord (stream : Int32) (fileIndex : ℕ) (type : FT) (delta : List UInt8) :
    unpackAttributesRecord stream
        (SendAttributes.attributesRecord fileIndex type name attribs link attribsEx delta) =
      .ok { stream, dataStream := 0, type := Int32.ofNat type.code, fileIndex := Int32.ofNat fileIndex,
            deltaSeq := if type = .RESTORE_FIRST then 0 else strToInt32 (delta ++ [0]),
            attrEx := if type = .RESTORE_FIRST then attribsEx ++ 0 :: (delta ++ [0]) else attribsEx,
            attr := attribs, fname := name, lname := link } := by
  have ends (rest : List UInt8) : EndsNumber (blank :: rest) := ⟨blank, rest, rfl, .inr rfl⟩
  rw [unpackAttributesRecord, SendAttributes.attributesRecord, scanInt_decimal fileIndex (ends _)]
  dsimp only
  rw [scanInt_blank, scanInt_decimal type.code (ends _), pastBlank_decimal, pastBlank_decimal]
  dsimp only
  rw [afterNul_append name_terminated, afterNul_append attribs_terminated,
    afterNul_append link_terminated, cstr_append name_terminated, cstr_append attribs_terminated,
    cstr_append link_terminated]
  have mask : Int32.ofNat type.code &&& FT_MASK = Int32.ofNat type.code := by cases type <;> decide
  have noStream : ¬ Int32.ofNat type.code &&& AR_DATA_STREAM ≠ 0 := by cases type <;> decide
  have first : Int32.ofNat type.code = Int32.ofNat FT.RESTORE_FIRST.code ↔ type = .RESTORE_FIRST := by
    cases type <;> decide
  rw [mask, if_neg noStream]
  simp only [first]
  by_cases object : type = .RESTORE_FIRST
  · rw [if_pos object, if_pos object, if_pos object]
  · rw [if_neg object, if_neg object, if_neg object, if_neg noStream,
      afterNul_append attribsEx_terminated, cstr_append attribsEx_terminated,
      if_pos (List.append_ne_nil_of_right_ne_nil _ (List.cons_ne_nil _ _))]

theorem cacheAttributes_attributesRecord (jcr : Jcr) (header : SdHeader) (fileIndex : ℕ) (type : FT)
    (delta : List UInt8) :
    cacheAttributes jcr header
        (SendAttributes.attributesRecord fileIndex type name attribs link attribsEx delta) =
      { flushCached jcr with
        ar := { fname := Scan.skipSpaces name, link := none, attr := attribs, stream := header.stream,
                fileType := Int32.ofNat type.code,
                deltaSeq := if type = .REG then strToInt32 (delta ++ [0]) else 0,
                fileIndex := if type = .DELETED then -header.fileIndex else header.fileIndex,
                jobId := jcr.wjcr.getD jcr.jobId, digest := none, digestType := .none },
        cachedAttribute := true } := by
  have ends (rest : List UInt8) : EndsNumber (blank :: rest) := ⟨blank, rest, rfl, .inr rfl⟩
  have skipped (n : ℕ) (rest : List UInt8) :
      Scan.skipSpaces (skipNonspaces (decimal n ++ blank :: rest)) = Scan.skipSpaces rest := by
    rw [skipNonspaces_solid (decimal_solid n), skipSpaces_blank]
  have regular : Int32.ofNat type.code = Int32.ofNat FT.REG.code ↔
      type = .REG := by cases type <;> decide
  have deleted : Int32.ofNat type.code = Int32.ofNat FT.DELETED.code ↔
      type = .DELETED := by cases type <;> decide
  have named := skipSpaces_terminated name_terminated
  unfold cacheAttributes SendAttributes.attributesRecord
  dsimp only
  rw [skipped, skipSpaces_decimal, strToInt32_decimal type.code (ends _), skipped, skipSpaces_nul,
    afterNul_append named, cstr_append named, afterNul_append attribs_terminated,
    cstr_append attribs_terminated, afterNul_append link_terminated,
    afterNul_append attribsEx_terminated]
  have some : delta ++ [0] ≠ [] := List.append_ne_nil_of_right_ne_nil _ (List.cons_ne_nil _ _)
  have job : (flushCached jcr).wjcr.getD (flushCached jcr).jobId = jcr.wjcr.getD jcr.jobId := by
    unfold flushCached
    split <;> rfl
  simp only [regular, deleted, some, ne_eq, not_false_eq_true, and_true, job]

end

/-! ## What was sent is what is read -/

open SendAttributes

theorem encodeAndSendAttributes_record {pkt : FFPkt} (file : pkt.type.isObject = false)
    (zdeflate : List UInt8 → List UInt8) (jobFiles : ℕ) (exStream : Int32)
    (attribs attribsEx : List UInt8) :
    (encodeAndSendAttributes zdeflate jobFiles exStream attribs attribsEx pkt).record =
      attributesRecord (jobFiles + 1) pkt.type pkt.sent.sentName attribs pkt.sent.sentLink attribsEx
        (if pkt.type = .REG then signed pkt.deltaSeq else decimal pkt.deltaSeq.toUInt32.toNat) := by
  have sentFile : pkt.sent.type.isObject = false := by rwa [sent_type]
  have record := sendRecord_eq sentFile zdeflate (jobFiles + 1) attribs attribsEx
  rw [sent_type, sent_deltaSeq] at record
  exact record

theorem strToInt32_delta (type : FT) (delta : Int32) :
    strToInt32 ((if type = .REG then signed delta else decimal delta.toUInt32.toNat) ++ [0]) =
      delta := by
  have ends : EndsNumber [0] := ⟨0, [], rfl, .inl rfl⟩
  split
  · exact strToInt32_signed delta ends
  · exact strToInt32_unsigned delta ends

theorem updateAttribute_attributes (jcr : Jcr) (jobId : ℕ) (volSessionId volSessionTime : UInt32)
    (fileIndex : Int32) {stream : Int32}
    (attributes : stream = STREAM_UNIX_ATTRIBUTES ∨ stream = STREAM_UNIX_ATTRIBUTES_EX)
    (data : List UInt8) :
    updateAttribute jcr
      (dirUpdateFileAttributes jobId volSessionId volSessionTime fileIndex stream data) =
      .ok (cacheAttributes jcr
        ⟨volSessionId, volSessionTime, fileIndex, stream, UInt32.ofNat data.length⟩ data) := by
  rw [updateAttribute, scanMessage_run, ok_bind]
  exact if_pos attributes

theorem skipSpaces_eq_self {name : List UInt8} (solid : ∀ b, name.head? = some b → bIsSpace b = false) :
    Scan.skipSpaces name = name := by
  cases name with
  | nil => rfl
  | cons b name => rw [Scan.skipSpaces, List.dropWhile_cons, solid b rfl]; rfl

/-- A file is read as it was sent, by the File daemon and, when its name does not start with a blank,
by the Director; and the packet keeps its names. -/
theorem attribute_record_law (zdeflate : List UInt8 → List UInt8) (jobFiles : ℕ) (exStream : Int32)
    {attribs attribsEx : List UInt8} (pkt : FFPkt) (name : 0 ∉ pkt.fname) (link : 0 ∉ pkt.linkName)
    (attribs_terminated : 0 ∉ attribs) (attribsEx_terminated : 0 ∉ attribsEx) :
    let sent := encodeAndSendAttributes zdeflate jobFiles exStream attribs attribsEx pkt
    sent.pkt.fname = pkt.fname ∧ sent.pkt.link = pkt.link ∧
      (pkt.type.isObject = false →
        (∀ stream, unpackAttributesRecord stream sent.record =
          .ok { stream, dataStream := 0, type := Int32.ofNat pkt.type.code,
                fileIndex := Int32.ofNat (jobFiles + 1), deltaSeq := pkt.deltaSeq,
                attrEx := attribsEx, attr := attribs, fname := pkt.sent.sentName,
                lname := pkt.sent.sentLink }) ∧
        ∀ (jcr : Jcr) (jobId : ℕ) (volSessionId volSessionTime : UInt32) (stream : Int32),
          stream = STREAM_UNIX_ATTRIBUTES ∨ stream = STREAM_UNIX_ATTRIBUTES_EX →
          (∀ b, pkt.sent.sentName.head? = some b → bIsSpace b = false) →
          ∃ jcr' stored, updateAttribute jcr (dirUpdateFileAttributes jobId volSessionId volSessionTime
                (Int32.ofNat (jobFiles + 1)) stream sent.record) = .ok jcr' ∧
            (flushFileRecords jcr').created = (flushFileRecords jcr).created ++ [stored] ∧
            stored.fname = pkt.sent.sentName ∧ stored.attr = attribs ∧
            stored.fileType = Int32.ofNat pkt.type.code ∧
              (pkt.type = .REG → stored.deltaSeq = pkt.deltaSeq)) := by
  intro sent
  obtain ⟨sameName, sameLink⟩ :=
    encodeAndSendAttributes_names zdeflate jobFiles exStream attribs attribsEx pkt
  refine ⟨sameName, sameLink, fun file => ?_⟩
  have record : sent.record = _ :=
    encodeAndSendAttributes_record file zdeflate jobFiles exStream attribs attribsEx
  obtain ⟨sentName, sentLink⟩ := sent_terminated name link
  have notFirst : pkt.type ≠ .RESTORE_FIRST := by
    intro eq
    rw [eq] at file
    cases file
  rw [record]
  refine ⟨fun stream => ?_, fun jcr jobId volSessionId volSessionTime stream attributes solid => ?_⟩
  · rw [unpack_attributesRecord sentName attribs_terminated sentLink attribsEx_terminated,
      if_neg notFirst, if_neg notFirst, strToInt32_delta]
  · rw [updateAttribute_attributes _ _ _ _ _ attributes,
      cacheAttributes_attributesRecord sentName attribs_terminated sentLink attribsEx_terminated,
      skipSpaces_eq_self solid]
    refine ⟨_, _, rfl, rfl, rfl, rfl, rfl, fun regular => ?_⟩
    dsimp only
    rw [if_pos regular, strToInt32_delta]

/-- A link of which the path was stripped. -/
theorem stripped_link_law :
    let pkt : FFPkt :=
      { type := .LNKSAVED, fname := ascii "/a/b", link := some (ascii "/a/c"), deltaSeq := -1,
        stripPathFlag := true, stripPath := 1, fnameSave := [], linkSave := [], objectIndex := 0,
        objectCompression := 0, objectName := [], object := [] }
    unpackAttributesRecord 1 (encodeAndSendAttributes id 6 1 (ascii "P0A") [] pkt).record =
      .ok { stream := 1, dataStream := 0, type := 1, fileIndex := 7, deltaSeq := -1, attrEx := [],
            attr := ascii "P0A", fname := ascii "/b", lname := ascii "/c" } := by
  intro pkt
  exact ((attribute_record_law id 6 1 pkt (by decide) (by decide) (by decide) (by decide)).2.2
    (by decide)).1 1

/-- The record of an object does not start with its name, and it has no attributes. -/
theorem object_unpacked :
    let pkt : FFPkt :=
      { type := .RESTORE_FIRST, fname := ascii "p", link := none, deltaSeq := 0,
        stripPathFlag := false, stripPath := 0, fnameSave := [], linkSave := [], objectIndex := 1,
        objectCompression := 0, objectName := ascii "o", object := ascii "x" }
    unpackAttributesRecord 28 (encodeAndSendAttributes id 0 1 (ascii "P0A") [] pkt).record =
      .ok { stream := 28, dataStream := 0, type := 25, fileIndex := 1, deltaSeq := 0, attrEx := [],
            attr := ascii "o", fname := ascii "1 1 1 0 p", lname := ascii "x" } := by
  decide +kernel

end Bacula.Catreq
