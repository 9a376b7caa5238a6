import Bacula.Lib.Attr

/-! Sending the attributes of a file to the Storage daemon, `encode_and_send_attributes` and
`strip_path` of `filed/backup.c`. The network and the listing of the files are left out. -/
namespace Bacula.SendAttributes
open Scan

/-- A link of `none` is the same pointer as the file name. -/
structure FFPkt where
  type : FT
  fname : List UInt8
  link : Option (List UInt8)
  deltaSeq : Int32
  stripPathFlag : Bool
  stripPath : ℤ
  fnameSave : List UInt8
  linkSave : List UInt8
  objectIndex : Int32
  objectCompression : Int32
  objectName : List UInt8
  object : List UInt8
  deriving DecidableEq

def FFPkt.linkName (pkt : FFPkt) : List UInt8 := pkt.link.getD pkt.fname

def isPathSeparator (b : UInt8) : Bool := b = 47

/-- The loop over the components to strip: what is left, how many were stripped and the separators. -/
def stripComponents : ℕ → List UInt8 → List UInt8 × ℕ × ℕ
  | 0, p => (p, 0, 0)
  | _+1, [] => ([], 0, 0)
  | count+1, b :: p =>
      match (b :: p).dropWhile fun b => ¬ isPathSeparator b with
      | [] => ([], 1, 0)
      | _ :: p =>
          let (left, stripped, numsep) := stripComponents count p
          (left, stripped + 1, numsep + 1)

/-- In place strip of path. -/
def doStrip (count : ℕ) (name : List UInt8) : List UInt8 × Bool :=
  -- copy to the first path separator, Win32 might have c: ...
  let front := name.takeWhile fun b => ¬ isPathSeparator b
  match name.dropWhile fun b => ¬ isPathSeparator b with
  | [] => (front, false)
  | separator :: p =>
      let (left, stripped, numsep) := stripComponents count p
      (front ++ separator :: left,
        stripped == count && decide (1 + numsep + left.countP isPathSeparator > count))

def FFPkt.strips (pkt : FFPkt) : Bool := pkt.stripPathFlag && decide (pkt.stripPath > 0)

/-- Symlinks are not stripped, and a link with the pointer of the name is stripped with the name. -/
def FFPkt.stripsLink (pkt : FFPkt) : Bool := pkt.type ≠ .LNK && pkt.link.isSome

def unstripPath (pkt : FFPkt) : FFPkt :=
  if ¬ pkt.strips then pkt
  else
    let pkt := { pkt with fname := pkt.fnameSave }
    if pkt.stripsLink then { pkt with link := some pkt.linkSave } else pkt

def stripPath (pkt : FFPkt) : FFPkt :=
  if ¬ pkt.strips then pkt
  else
    let pkt := { pkt with fnameSave := pkt.fname }
    let pkt := if pkt.stripsLink then { pkt with linkSave := pkt.linkName } else pkt
    let (fname, ok) := doStrip pkt.stripPath.toNat pkt.fname
    let pkt := { pkt with fname }
    if ¬ ok then unstripPath pkt
    else if pkt.stripsLink then
      let (link, ok) := doStrip pkt.stripPath.toNat pkt.linkName
      let pkt := { pkt with link := some link }
      if ok then pkt else unstripPath pkt
    else pkt

/-- The format of the records of files. -/
def attributesRecord (fileIndex : ℕ) (type : FT) (name attribs link attribsEx delta : List UInt8) :
    List UInt8 :=
  decimal fileIndex ++ blank ::
    (decimal type.code ++ blank :: (name ++ 0 :: (attribs ++ 0 :: (link ++ 0 ::
    (attribsEx ++ 0 :: (delta ++ [0]))))))

/-- The format of the records of objects. -/
def objectRecord (fileIndex : ℕ) (pkt : FFPkt) (stored : List UInt8) : List UInt8 :=
  decimal fileIndex ++ blank :: (decimal pkt.type.code ++ blank :: (signed pkt.objectIndex ++ blank ::
    (decimal stored.length ++ blank ::
      (decimal pkt.object.length ++ blank :: (signed pkt.objectCompression ++ blank ::
      (pkt.fname ++ 0 :: (pkt.objectName ++ 0 :: (stored ++ [0]))))))))

/-- A big object is compressed, and what was compressed is freed after it was sent. -/
def sendObject (zdeflate : List UInt8 → List UInt8) (fileIndex : ℕ) (pkt : FFPkt) :
    List UInt8 × FFPkt :=
  let compressed := zdeflate pkt.object
  if pkt.object.length > 1000 ∧ compressed.length < pkt.object.length then
    let pkt := { pkt with objectCompression := 1 }
    (objectRecord fileIndex pkt compressed, { pkt with object := [] })
  else
    let pkt := { pkt with objectCompression := 0 }
    (objectRecord fileIndex pkt pkt.object, pkt)

/-- The record of a packet whose path is stripped, and the packet. -/
def sendRecord (zdeflate : List UInt8 → List UInt8) (fileIndex : ℕ) (attribs attribsEx : List UInt8)
    (pkt : FFPkt) : List UInt8 × FFPkt :=
  let unsigned := decimal pkt.deltaSeq.toUInt32.toNat
  match pkt.type with
  | .LNK | .LNKSAVED =>
      (attributesRecord fileIndex pkt.type pkt.fname attribs pkt.linkName attribsEx unsigned, pkt)
  | .DIREND | .REPARSE | .JUNCTION =>
      -- here link is the canonical filename (with trailing slash)
      (attributesRecord fileIndex pkt.type pkt.linkName attribs [] attribsEx unsigned, pkt)
  | .PLUGIN_CONFIG | .RESTORE_FIRST => sendObject zdeflate fileIndex pkt
  | .REG =>
      (attributesRecord fileIndex pkt.type pkt.fname attribs [] attribsEx (signed pkt.deltaSeq), pkt)
  | .PLUGIN_CONFIG_FILLED =>
      -- no extended attributes were encoded
      (attributesRecord fileIndex pkt.type pkt.fname attribs [] (ByteCodec.ascii "<NULL>") unsigned,
        pkt)
  | _ => (attributesRecord fileIndex pkt.type pkt.fname attribs [] attribsEx unsigned, pkt)

/-- Deleted files are stripped already. -/
def FFPkt.isStripped (pkt : FFPkt) : Bool := ¬ pkt.type.isObject ∧ pkt.type ≠ .DELETED

/-- The header and the record that are sent, and the packet after the call. -/
structure Sent where
  header : List UInt8
  record : List UInt8
  pkt : FFPkt
  deriving DecidableEq

/-- The attributes are those of `encode_stat` and `encode_attribsEx`, `zdeflate` is what the
compression of an object gives. -/
def encodeAndSendAttributes (zdeflate : List UInt8 → List UInt8) (jobFiles : ℕ) (exStream : Int32)
    (attribs attribsEx : List UInt8) (pkt : FFPkt) : Sent :=
  let attrStream := if pkt.type.isObject then STREAM_RESTORE_OBJECT else exStream
  let jobFiles := jobFiles + 1
  let header := decimal jobFiles ++ blank :: (signed attrStream ++ blank :: decimal 0)
  let (record, after) :=
    sendRecord zdeflate jobFiles attribs attribsEx (if pkt.isStripped then stripPath pkt else pkt)
  ⟨header, record, if pkt.isStripped then unstripPath after else after⟩

end Bacula.SendAttributes
