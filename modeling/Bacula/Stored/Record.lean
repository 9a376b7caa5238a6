import Bacula.Lib.Serial

/-! The record packet of `stored/record.h`. Lengths and byte counts are naturals; the
index, stream and session fields keep their 32 bit types because they are stored on
the volume in that form. The states and flags of aligned (adata) volumes are left out. -/
namespace Bacula

/-- `enum rec_state`, without the adata states. -/
inductive RecState where
  | none
  | header
  | contHeader
  | data
  deriving DecidableEq, Repr

/-- The `REC_*` bits of `state_bits`. -/
structure StateBits where
  noHeader : Bool := false
  partialRecord : Bool := false
  blockEmpty : Bool := false
  noMatch : Bool := false
  continuation : Bool := false
  noSplit : Bool := false
  deriving DecidableEq, Repr

structure DevRecord where
  addr : ℕ := 0
  startAddr : ℕ := 0
  volSessionId : UInt32 := 0
  volSessionTime : UInt32 := 0
  fileIndex : Int32 := 0
  stream : Int32 := 0
  maskedStream : Int32 := 0
  /-- Bytes of `data` that belong to the record. -/
  dataLen : ℕ := 0
  /-- Bytes still to write, or a flag that more of the record is to be read. -/
  remainder : ℕ := 0
  remlen : ℕ := 0
  dataBytes : ℕ := 0
  extraBytes : ℕ := 0
  stateBits : StateBits := {}
  recNum : ℕ := 0
  blockNumber : UInt32 := 0
  invalid : Bool := false
  wstate : RecState := .none
  rstate : RecState := .none
  /-- The pool memory buffer, which is usually longer than `dataLen`. -/
  data : List UInt8 := []
  deriving DecidableEq, Repr

def PRE_LABEL : Int32 := -1
def VOL_LABEL : Int32 := -2
def EOM_LABEL : Int32 := -3
def SOS_LABEL : Int32 := -4
def EOS_LABEL : Int32 := -5

def STREAMMASK_TYPE : Int32 := 0x7FF

/-- A buffer that is too short grows and keeps its bytes; what the new memory
holds is not specified by `realloc`, here it is zero. -/
def checkPoolMemorySize (buf : List UInt8) (size : ℕ) : List UInt8 :=
  buf ++ List.replicate (size - buf.length) 0

theorem le_checkPoolMemorySize (buf : List UInt8) (size : ℕ) :
    size ≤ (checkPoolMemorySize buf size).length := by
  simp only [checkPoolMemorySize, List.length_append, List.length_replicate]
  omega

end Bacula
