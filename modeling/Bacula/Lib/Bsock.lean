import Bacula.Library.Buffer
import Bacula.Library.ByteCodec

/-!
# Messages on a socket

A message goes over the wire as its length, for flags a second word, and its bytes. Bits of the
length word say that it is compressed and that the second word is there.
-/
namespace Bacula.Bsock

/-- Set for lz4 compressed data. -/
def BNET_COMPRESSED : BitVec 32 := .twoPow 32 30
/-- Extended header. -/
def BNET_HDR_EXTEND : BitVec 32 := .twoPow 32 29
/-- Set for command data. -/
def BNET_IS_CMD : BitVec 32 := .twoPow 32 28
/-- Data compression offset specified. -/
def BNET_OFFSET : BitVec 32 := .twoPow 32 27
/-- Disable compression. -/
def BNET_NOCOMPRESS : BitVec 32 := .twoPow 32 25
/-- Data compression. -/
def BNET_DATACOMPRESSED : BitVec 32 := .twoPow 32 24

/-- The signal after which the peer closes. -/
def BNET_TERMINATE : BitVec 32 := -4

/-- The values that `recv` returns besides a number of bytes. -/
def BNET_SIGNAL : ℤ := -1
def BNET_HARDEOF : ℤ := -2
def BNET_ERROR : ℤ := -3
def BNET_COMMAND : ℤ := -4

/-- The compression library. Both functions leave bytes at the start of the destination, also
when they fail. -/
structure Lz4 where
  compressBound : ℕ → ℕ
  compress_default : List UInt8 → ℕ → Except (List UInt8) (List UInt8)
  decompress_safe : List UInt8 → ℕ → Except (List UInt8) (List UInt8)

structure BSOCK where
  msg : Buffer
  /-- Compress buffer. -/
  cmsg : Buffer
  msglen : BitVec 32
  m_flags : BitVec 32
  errors : ℕ
  m_terminated : Bool
  m_closed : Bool
  m_compress : Bool

def htonl (word : BitVec 32) : List UInt8 := ByteCodec.bigEndian 4 word.toNat

def ntohl (bytes : List UInt8) : BitVec 32 := .ofNat 32 (ByteCodec.number bytes)

/-- `errors || is_terminated() || is_closed()`. -/
def BSOCK.is_stop (b : BSOCK) : Bool := b.errors ≠ 0 || b.m_terminated || b.m_closed

def BSOCK.offset (b : BSOCK) : ℕ := (b.m_flags &&& 0xFF).toNat

/-- Grow a buffer that has not more than `n` bytes. -/
def reserve (buffer : Buffer) (n size : ℕ) : Buffer :=
  if buffer.size ≤ n then buffer.realloc size else buffer

section

variable (z : Lz4)

/-- Whether the compression was done: then `msg` points to `cmsg`. `none` where an assertion about
the offset fails. -/
def comm_compress (b : BSOCK) : Option (Bool × BSOCK) :=
  if 20 < b.msglen.toInt ∧ b.m_compress then
    if b.offset ≤ b.msglen.toInt ∧ b.offset < 255 then
      let need_size := z.compressBound b.msglen.toNat
      let cmsg := reserve b.cmsg need_size (need_size + 100)
      let len := b.msglen.toNat - b.offset
      match z.compress_default (b.msg.read b.offset len) len with
      | .ok c =>
          let cmsg := cmsg.write b.offset c
          -- compression should save at least 10 characters
          if 0 < c.length ∧ c.length + 10 ≤ len then
            some (true, { b with cmsg, msglen := .ofNat 32 (c.length + b.offset) })
          else some (false, { b with cmsg })
      | .error left => some (false, { b with cmsg := cmsg.write b.offset left })
    else none
  else some (false, b)

/-- The answer to "compressed", and whether `msg` now points to `cmsg`. -/
def compressing (b : BSOCK) : Option (Bool × Bool × BSOCK) :=
  if b.m_flags &&& BNET_DATACOMPRESSED ≠ 0 then some (true, false, b)
  else if b.m_flags &&& BNET_NOCOMPRESS ≠ 0 then some (false, false, b)
  else (comm_compress z b).map fun (compressed, b) => (compressed, compressed, b)

/-- The header in front of the bytes of `buffer`, and the packet that is written. -/
def frame (buffer : Buffer) (msglen m_flags : BitVec 32) (compressed : Bool) :
    Buffer × List UInt8 :=
  let hdrsiz : ℕ := if msglen.toInt ≤ 0 then 4 else if m_flags ≠ 0 then 8 else 4
  let pktsiz := if msglen.toInt ≤ 0 then hdrsiz else msglen.toNat + hdrsiz
  -- no comm compression when data compression is on
  let compressed := compressed && m_flags &&& BNET_OFFSET = 0
  let word := if compressed then msglen ||| BNET_COMPRESSED else msglen
  let word := if m_flags ≠ 0 then word ||| BNET_HDR_EXTEND else word
  let buffer := buffer.write (-hdrsiz) (htonl word)
  let buffer := if m_flags ≠ 0 then buffer.write (4 - hdrsiz) (htonl m_flags) else buffer
  (buffer, buffer.read (-hdrsiz) pktsiz)

/-- The result, the socket afterwards and the bytes on the wire. -/
def send (b : BSOCK) (aflags : BitVec 32) : Option (Bool × BSOCK × List UInt8) :=
  if b.is_stop ∨ 4000000 < b.msglen.toInt then some (false, b, [])
  else
    let save_msglen := b.msglen
    let offset := aflags &&& 0xFF
    let m_flags := if offset ≠ 0 then aflags ||| BNET_OFFSET else aflags
    match compressing z { b with m_flags } with
    | none => none
    | some (compressed, moved, b) =>
        let m_flags := if offset ≠ 0 ∧ compressed then b.m_flags ||| BNET_DATACOMPRESSED
          else b.m_flags
        let m_flags := if compressed then m_flags else m_flags &&& ~~~BNET_COMPRESSED
        let b := { b with m_flags }
        if moved then
          let (cmsg, packet) := frame b.cmsg b.msglen b.m_flags compressed
          some (true, { b with cmsg, msglen := save_msglen }, packet)
        else
          let (msg, packet) := frame b.msg b.msglen b.m_flags compressed
          some (true, { b with msg, msglen := save_msglen }, packet)

def signal (b : BSOCK) (signal : BitVec 32) : Option (Bool × BSOCK × List UInt8) :=
  send z { b with msglen := signal } 0

/-- Exactly `n` bytes, or nothing at the end of the stream. -/
def read_nbytes (n : ℕ) (stream : List UInt8) : Option (List UInt8) × List UInt8 :=
  if n ≤ stream.length then (some (stream.take n), stream.drop n) else (none, [])

/-- `get_out`. -/
def got (command : Bool) (nbytes : ℤ) : ℤ :=
  if nbytes ≠ BNET_ERROR ∧ command then BNET_COMMAND else nbytes

/-- The loop that grows `cmsg` until the data fits. -/
def grow (src : List UInt8) : ℕ → ℕ → Buffer → Option ℕ × Buffer
  | 0, _, cmsg => (none, cmsg)
  | tries+1, psize, cmsg =>
      match z.decompress_safe src psize with
      | .ok d => (some d.length, cmsg.write 0 d)
      | .error left =>
          let psize := if psize < 65536 then 65536 else psize * 2
          grow src tries psize (reserve (cmsg.write 0 left) psize (psize + 100))

/-- The answer and the socket, the bytes of the packet being in `msg`. -/
def uncompress (b : BSOCK) (command : Bool) (pktsiz : ℕ) : ℤ × BSOCK :=
  let cmsg := reserve b.cmsg (pktsiz * 4) (pktsiz * 4)
  let offset := if b.m_flags &&& BNET_OFFSET ≠ 0 then b.offset else 0
  match grow z (b.msg.read offset (pktsiz - offset)) 7 cmsg.size cmsg with
  | (none, cmsg) => (got command BNET_ERROR, { b with cmsg, errors := b.errors + 1 })
  | (some nbytes, cmsg) =>
      let msg := reserve b.msg nbytes (nbytes + 100)
      -- a data decompress leaves msg compressed
      let msg := if b.m_flags &&& BNET_OFFSET = 0 then msg.write 0 (cmsg.read 0 nbytes) else msg
      (got command nbytes, { b with cmsg, msg := msg.write nbytes [0], msglen := .ofNat 32 nbytes })

/-- The part of `recv` behind the header: `pktsiz` is the length in it. -/
def recvPacket (b : BSOCK) (compressed : Bool) (pktsiz : BitVec 32) (stream : List UInt8) :
    ℤ × BSOCK × List UInt8 :=
  let command : Bool := b.m_flags &&& BNET_IS_CMD ≠ 0
  let compressed := compressed || b.m_flags &&& BNET_OFFSET ≠ 0
  if pktsiz = 0 then (got command 0, { b with msglen := 0 }, stream)
  else if pktsiz.toInt < 0 ∨ 1000000 < pktsiz.toInt then
    let msglen := if 0 < pktsiz.toInt then BNET_TERMINATE else pktsiz
    let m_terminated := b.m_terminated || msglen = BNET_TERMINATE
    (got command BNET_SIGNAL, { b with m_terminated, msglen }, stream)
  else
    let b := { b with msg := reserve b.msg pktsiz.toNat (pktsiz.toNat + 100) }
    match read_nbytes pktsiz.toNat stream with
    | (none, stream) => (got command BNET_ERROR, { b with errors := b.errors + 1 }, stream)
    | (some data, stream) =>
        let b := { b with msg := b.msg.write 0 data, msglen := pktsiz }
        if compressed then
          let (nbytes, b) := uncompress z b command pktsiz.toNat
          (nbytes, b, stream)
        else (got command pktsiz.toNat, { b with msg := b.msg.write pktsiz.toNat [0] }, stream)

/-- The flag of a compressed packet, and the length without it. -/
def recvLength (b : BSOCK) (pktsiz : BitVec 32) (stream : List UInt8) : ℤ × BSOCK × List UInt8 :=
  if 0 < pktsiz.toInt ∧ pktsiz &&& BNET_COMPRESSED ≠ 0 then
    recvPacket z b true (pktsiz &&& ~~~BNET_COMPRESSED) stream
  else recvPacket z b false pktsiz stream

/-- The value returned, the socket afterwards and the bytes that remain. -/
def recv (b : BSOCK) (stream : List UInt8) : ℤ × BSOCK × List UInt8 :=
  let b := { b with
    cmsg := b.cmsg.write 0 [0], msg := b.msg.write 0 [0], msglen := 0, m_flags := 0 }
  if b.is_stop then (BNET_HARDEOF, b, stream)
  else
    match read_nbytes 4 stream with
    | (none, stream) => (BNET_HARDEOF, { b with errors := b.errors + 1 }, stream)
    | (some bytes, stream) =>
        let pktsiz := ntohl bytes
        if 0 < pktsiz.toInt ∧ pktsiz &&& BNET_HDR_EXTEND ≠ 0 then
          match read_nbytes 4 stream with
          | (none, stream) => (BNET_HARDEOF, { b with errors := b.errors + 1 }, stream)
          | (some flags, stream) =>
              recvLength z { b with m_flags := ntohl flags } (pktsiz &&& ~~~BNET_HDR_EXTEND) stream
        else recvLength z b pktsiz stream

end

end Bacula.Bsock
