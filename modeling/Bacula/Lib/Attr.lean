import Bacula.Lib.Base64
import Bacula.Lib.Scan

/-! The attributes of a file as the File daemon and the tools of the Storage daemon read them,
`lib/attr.c` with the file types of `filetypes.h`. -/
namespace Bacula
open Scan

/-- The file types. -/
inductive FT where
  | LNKSAVED | REGE | REG | LNK | DIREND | SPEC | NOACCESS | NOFOLLOW | NOSTAT | NOCHG | DIRNOCHG
  | ISARCH | NORECURSE | NOFSCHG | NOOPEN | RAW | FIFO | DIRBEGIN | INVALIDFS | INVALIDDT | REPARSE
  | PLUGIN | DELETED | BASE | RESTORE_FIRST | JUNCTION | PLUGIN_CONFIG | PLUGIN_CONFIG_FILLED
  deriving DecidableEq, Repr

/-- The number of the type in a record. -/
def FT.code : FT → ℕ
  | LNKSAVED => 1 | REGE => 2 | REG => 3 | LNK => 4 | DIREND => 5 | SPEC => 6 | NOACCESS => 7
  | NOFOLLOW => 8 | NOSTAT => 9 | NOCHG => 10 | DIRNOCHG => 11 | ISARCH => 12 | NORECURSE => 13
  | NOFSCHG => 14 | NOOPEN => 15 | RAW => 16 | FIFO => 17 | DIRBEGIN => 18 | INVALIDFS => 19
  | INVALIDDT => 20 | REPARSE => 21 | PLUGIN => 22 | DELETED => 23 | BASE => 24 | RESTORE_FIRST => 25
  | JUNCTION => 26 | PLUGIN_CONFIG => 27 | PLUGIN_CONFIG_FILLED => 28

def FT_MASK : Int32 := 0xFFFF

def AR_DATA_STREAM : Int32 := 0x10000

def STREAM_UNIX_ATTRIBUTES : Int32 := 1
def STREAM_UNIX_ATTRIBUTES_EX : Int32 := 5
def STREAM_RESTORE_OBJECT : Int32 := 28

/-- `IS_FT_OBJECT`. -/
def FT.isObject (type : FT) : Bool :=
  type = .RESTORE_FIRST || type = .PLUGIN_CONFIG_FILLED || type = .PLUGIN_CONFIG

structure Attr where
  stream : Int32
  dataStream : Int32
  type : Int32
  fileIndex : Int32
  deltaSeq : Int32
  attrEx : List UInt8
  attr : List UInt8
  fname : List UInt8
  lname : List UInt8
  deriving DecidableEq

def unpackAttributesRecord (stream : Int32) (record : List UInt8) : Except (List UInt8) Attr :=
  match scanInt record with
  | none => .error (ByteCodec.ascii "Error scanning attributes: " ++ cstr record ++ [10])
  | some (fileIndex, behind) =>
      match scanInt behind with
      | none => .error (ByteCodec.ascii "Error scanning attributes: " ++ cstr record ++ [10])
      | some (flagged, _) =>
          let type := flagged &&& FT_MASK
          let fname := pastBlank (pastBlank record)
          let attr := afterNul fname
          let lname := afterNul attr
          let p := afterNul lname
          if type = Int32.ofNat FT.RESTORE_FIRST.code then
            -- an object, so do a binary copy
            .ok { stream, type, fileIndex, attrEx := p, attr := cstr attr, fname := cstr fname,
                  lname := cstr lname,
                  dataStream := if flagged &&& AR_DATA_STREAM ≠ 0 then 1 else 0, deltaSeq := 0 }
          else
            let q := afterNul p
            if flagged &&& AR_DATA_STREAM ≠ 0 then
              let dataStream := match fromBase64 (q ++ [0]) with
                | .ok (val, _) => val.toInt32
                | .error _ => 0
              .ok { stream, dataStream, type, fileIndex, attrEx := cstr p, attr := cstr attr,
                    fname := cstr fname, lname := cstr lname, deltaSeq := 0 }
            else
              .ok { stream, type, fileIndex, attrEx := cstr p, attr := cstr attr,
                    fname := cstr fname, lname := cstr lname, dataStream := 0,
                    deltaSeq := if q ≠ [] then strToInt32 q else 0 }

end Bacula
