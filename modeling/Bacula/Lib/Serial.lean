import Bacula.Library.ByteCodec

/-! The serialisation routines of `lib/serial.c`. A call `serial_x(&ptr, v)` stores
bytes at the pointer and advances it, so a sequence of calls stores the appended
bytes; `unserial_x` consumes them again. Floating point values occur only as the
64 bit pattern that is copied. -/
namespace Bacula
open ByteCodec

def serialUint32 (v : UInt32) : List UInt8 := bigEndian 4 v.toNat

def serialUint16 (v : UInt16) : List UInt8 := bigEndian 2 v.toNat

def serialInt32 (v : Int32) : List UInt8 := serialUint32 v.toUInt32

def serialUint64 (v : UInt64) : List UInt8 := bigEndian 8 v.toNat

def serialInt64 (v : Int64) : List UInt8 := serialUint64 v.toUInt64

def serialBtime (v : Int64) : List UInt8 := serialInt64 v

def serialFloat64 (v : UInt64) : List UInt8 := serialUint64 v

def serialString {max : ℕ} (s : Field max) : List UInt8 := s.stored

def unserialUint32 : Decoder UInt32 := UInt32.ofNat <$> natural 4

def unserialUint16 : Decoder UInt16 := UInt16.ofNat <$> natural 2

def unserialInt32 : Decoder Int32 := UInt32.toInt32 <$> unserialUint32

def unserialUint64 : Decoder UInt64 := UInt64.ofNat <$> natural 8

def unserialInt64 : Decoder Int64 := UInt64.toInt64 <$> unserialUint64

def unserialBtime : Decoder Int64 := unserialInt64

def unserialFloat64 : Decoder UInt64 := unserialUint64

/-- `max` is the size of the destination array, as in `unser_string`. -/
def unserialString (max : ℕ) : Decoder (Field max) := field max

@[simp] theorem serialUint32_length (v : UInt32) : (serialUint32 v).length = 4 := by
  simp [serialUint32]

@[simp] theorem serialUint16_length (v : UInt16) : (serialUint16 v).length = 2 := by
  simp [serialUint16]

@[simp] theorem serialInt32_length (v : Int32) : (serialInt32 v).length = 4 := by
  simp [serialInt32]

@[simp] theorem serialUint64_length (v : UInt64) : (serialUint64 v).length = 8 := by
  simp [serialUint64]

@[simp] theorem serialBtime_length (v : Int64) : (serialBtime v).length = 8 := by
  simp [serialBtime, serialInt64]

@[simp] theorem serialFloat64_length (v : UInt64) : (serialFloat64 v).length = 8 := by
  simp [serialFloat64]

@[simp] theorem unserialUint32_serial (v : UInt32) (rest : List UInt8) :
    unserialUint32.run (serialUint32 v ++ rest) = .ok (v, rest) := by
  simp [unserialUint32, serialUint32]

/-- A number that was read stands at the front of the input. -/
theorem unserialUint32_run_ok {input rest : List UInt8} {v : UInt32}
    (run : unserialUint32.run input = .ok (v, rest)) : input = serialUint32 v ++ rest := by
  rw [unserialUint32, StateT.run_map, natural, StateT.run_bind] at run
  cases read : (bytes 4).run input with
  | error fault =>
      rw [read] at run
      cases run
  | ok result =>
      obtain ⟨digits, left⟩ := result
      obtain ⟨rfl, four⟩ := bytes_run_ok read
      rw [read] at run
      have taken : UInt32.ofNat (number digits) = v ∧ left = rest := by
        simpa [Functor.map, Except.map] using run
      obtain ⟨rfl, rfl⟩ := taken
      have small : number digits < 2 ^ 32 := by
        have bound := number_lt digits
        rw [four] at bound
        simpa using bound
      rw [serialUint32, UInt32.toNat_ofNat_of_lt' small, ← four, bigEndian_number]

@[simp] theorem unserialUint16_serial (v : UInt16) (rest : List UInt8) :
    unserialUint16.run (serialUint16 v ++ rest) = .ok (v, rest) := by
  simp [unserialUint16, serialUint16]

@[simp] theorem unserialInt32_serial (v : Int32) (rest : List UInt8) :
    unserialInt32.run (serialInt32 v ++ rest) = .ok (v, rest) := by
  simp [unserialInt32, serialInt32]

@[simp] theorem unserialUint64_serial (v : UInt64) (rest : List UInt8) :
    unserialUint64.run (serialUint64 v ++ rest) = .ok (v, rest) := by
  simp [unserialUint64, serialUint64]

@[simp] theorem unserialBtime_serial (v : Int64) (rest : List UInt8) :
    unserialBtime.run (serialBtime v ++ rest) = .ok (v, rest) := by
  simp [unserialBtime, serialBtime, unserialInt64, serialInt64]

@[simp] theorem unserialFloat64_serial (v : UInt64) (rest : List UInt8) :
    unserialFloat64.run (serialFloat64 v ++ rest) = .ok (v, rest) :=
  unserialUint64_serial v rest

@[simp] theorem unserialString_serial {max : ℕ} (s : Field max) (rest : List UInt8) :
    (unserialString max).run (serialString s ++ rest) = .ok (s, rest) :=
  field_stored s rest

/-- A stray zero byte in front of a 64 bit number: it is read as `v / 256`. -/
theorem unserialUint64_shifted (v : UInt64) (rest : List UInt8) :
    unserialUint64.run (0 :: (serialUint64 v ++ rest)) =
      .ok (UInt64.ofNat (v.toNat / 256), UInt8.ofNat v.toNat :: rest) := by
  have small : v.toNat / 256 % 256 ^ 7 = v.toNat / 256 :=
    Nat.mod_eq_of_lt (by have := v.toNat_lt; omega)
  simp only [unserialUint64, serialUint64, StateT.run_map, natural_shifted, small]
  simp

/-- What is read as a 32 bit number when the byte `x` stands in front of `v`. -/
def shifted (x : UInt8) (v : UInt32) : UInt32 := UInt32.ofNat (x.toNat * 256 ^ 3 + v.toNat / 256)

theorem unserialUint32_shifted (x : UInt8) (v : UInt32) (rest : List UInt8) :
    unserialUint32.run (x :: (serialUint32 v ++ rest)) =
      .ok (shifted x v, UInt8.ofNat v.toNat :: rest) := by
  have small : v.toNat / 256 % 256 ^ 3 = v.toNat / 256 :=
    Nat.mod_eq_of_lt (by have := v.toNat_lt; omega)
  simp only [unserialUint32, serialUint32, StateT.run_map, natural_shifted, small]
  rfl

end Bacula
