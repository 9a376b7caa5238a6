import Bacula.Stored.MatchVoladdr

/-! The records that a bootstrap selects: `match_bsr` of `stored/match_bsr.c` with its flags, and the
loop of `read_records` in `stored/read_records.c` that asks it, with its repositioning. The records are
data records; all labels go to the callback. Reads and mounts succeed, and a position to which the
device is sent is that of a block, or there is nothing to read behind it. -/
namespace Bacula.MatchBsr
open MatchVoladdr

/-- A record, or the part of one that a block holds: the header is there again in the block in which the
record goes on. -/
structure DevRecord where
  fileIndex : ℤ
  stream : ℤ
  data : List UInt8
  deriving DecidableEq

/-- A block on a volume. The records in it get the address of its end; behind it the device is at
`devAddr`. -/
structure Block where
  blockAddr : UInt64
  endAddr : UInt64
  devAddr : UInt64
  volSessionId : UInt32
  volSessionTime : UInt32
  recs : List DevRecord
  /-- A record that goes on in the next block is the last one. -/
  unfinished : Option DevRecord

structure Volume where
  volumeName : String
  blocks : List Block

structure BSR where
  volume : List String
  voladdr : List BSR_VOLADDR
  sesstime : List UInt32
  sessid : List (UInt32 × UInt32)
  fileIndex : List (ℤ × ℤ)
  /-- The selections that are not used by Bacula's restore command: jobs, clients, streams. -/
  others : Block → DevRecord → Bool
  count : ℕ
  found : ℕ
  done : Bool

def matchVolume (volume : List String) (volumeName : String) : Bool := volume.any (· = volumeName)

def matchSesstime (sesstime : List UInt32) (block : Block) : Bool :=
  sesstime = [] ∨ sesstime.any (· = block.volSessionTime)

def matchSessid (sessid : List (UInt32 × UInt32)) (block : Block) : Bool :=
  sessid = [] ∨ sessid.any fun s => s.1 ≤ block.volSessionId ∧ block.volSessionId ≤ s.2

/-- `match_findex`: whether the index matches, the ranges that are left, and whether they make the bsr
done. -/
def matchFindex (fileIndex : ℤ) : List (ℤ × ℤ) → Bool × List (ℤ × ℤ) × Bool
  | [] => (true, [], false)
  | [findex] =>
      if findex.1 ≤ fileIndex ∧ fileIndex ≤ findex.2 then (true, [findex], false)
      else (false, [findex], findex.2 < fileIndex)
  | findex :: next :: rest =>
      if findex.1 ≤ fileIndex ∧ fileIndex ≤ findex.2 then (true, findex :: next :: rest, false)
      else if findex.2 < fileIndex then matchFindex fileIndex (next :: rest)
      else (false, findex :: next :: rest, false)

structure Matched where
  found : Bool
  reposition : Bool
  bsr : BSR

/-- One bsr of the chain in `match_all`. -/
def BSR.matchRec (bsr : BSR) (volumeName : String) (block : Block) (rec : DevRecord) : Matched :=
  if bsr.done then ⟨false, false, bsr⟩
  else if ¬ matchVolume bsr.volume volumeName then ⟨false, false, bsr⟩
  else
    let (found, voladdr, done, reposition) := matchChain block.endAddr bsr.voladdr true
    let bsr := { bsr with voladdr, done }
    if ¬ found then ⟨false, reposition, bsr⟩
    else if ¬ matchSesstime bsr.sesstime block then ⟨false, reposition, bsr⟩
    else if ¬ matchSessid bsr.sessid block then ⟨false, reposition, bsr⟩
    else
      let (found, fileIndex, past) := matchFindex rec.fileIndex bsr.fileIndex
      let bsr := { bsr with fileIndex, done := bsr.done || past }
      ⟨found && (bsr.count ≠ 0 && bsr.fileIndex ≠ [] || bsr.others block rec), reposition || past, bsr⟩

inductive MatchStat where
  | matches
  | noMatch
  | noMore
  deriving DecidableEq

structure MatchedAll where
  stat : MatchStat
  /-- `rec->bsr`, when a bsr of Bacula's restore command matches. -/
  recBsr : Option ℕ
  reposition : Bool
  chain : List BSR

/-- `match_all` from a bsr of the chain on. -/
def matchAll (volumeName : String) (block : Block) (rec : DevRecord) : List BSR → ℕ → Bool → MatchedAll
  | [], _, done => ⟨if done then .noMore else .noMatch, none, false, []⟩
  | bsr :: next, i, done =>
      let m := bsr.matchRec volumeName block rec
      if m.found then
        ⟨.matches, if m.bsr.count ≠ 0 ∧ m.bsr.fileIndex ≠ [] then some i else none, m.reposition,
          m.bsr :: next⟩
      else
        let all := matchAll volumeName block rec next (i + 1) (m.bsr.done && done)
        { all with reposition := m.reposition || all.reposition, chain := m.bsr :: all.chain }

/-- The chain with the flags of its root, and the bsr that each open record points to. -/
structure State where
  chain : List BSR
  usePositioning : Bool
  /-- The device has `CAP_POSITIONBLOCKS`. -/
  canPosition : Bool
  reposition : Bool
  mountNextVolume : Bool
  recBsr : UInt32 × UInt32 → Option ℕ

def Block.session (block : Block) : UInt32 × UInt32 := (block.volSessionId, block.volSessionTime)

def matchBsr (s : State) (volumeName : String) (block : Block) (rec : DevRecord) : MatchStat × State :=
  if s.chain = [] then (.matches, s)
  else
    let all := matchAll volumeName block rec s.chain 0 true
    (all.stat, { s with
      chain := all.chain
      reposition := all.reposition && (all.stat = .noMatch && s.usePositioning)
      recBsr := match all.recBsr with
        | some i => Function.update s.recBsr block.session (some i)
        | none => s.recBsr })

/-- The smallest address of the ranges that are not done. -/
def getSmallestVoladdr (voladdr : List BSR_VOLADDR) : Option UInt64 :=
  ((voladdr.filter fun v => ¬ v.done).map BSR_VOLADDR.saddr).min?

def findSmallestVolfile (found bsr : BSR) : BSR :=
  match getSmallestVoladdr found.voladdr, getSmallestVoladdr bsr.voladdr with
  | some saddr, some saddr' => if saddr > saddr' then bsr else found
  | _, _ => found

/-- The walk of `find_next_bsr`. -/
def walkBsrs (volumeName : String) : List BSR → Option BSR → Option BSR
  | [], found => found
  | bsr :: next, found =>
      if bsr.done ∨ ¬ matchVolume bsr.volume volumeName then walkBsrs volumeName next found
      else walkBsrs volumeName next (some ((found.map (findSmallestVolfile · bsr)).getD bsr))

def findNextBsr (s : State) (volumeName : String) : Option BSR × State :=
  if ¬ s.usePositioning ∨ ¬ s.reposition ∨ ¬ s.canPosition then (none, s)
  else
    let found := walkBsrs volumeName s.chain none
    (found, { s with mountNextVolume := found.isNone })

def getBsrStartAddr (bsr : BSR) : UInt64 := (bsr.voladdr.head?.map BSR_VOLADDR.saddr).getD 0

inductive Move where
  | nextVolume
  | reposition (addr : UInt64)

/-- `try_repositioning`. It does not position backwards. -/
def tryRepositioning (s : State) (volumeName : String) (devAddr : UInt64) : Option Move × State :=
  match findNextBsr s volumeName with
  | (none, s) =>
      if s.mountNextVolume then (some .nextVolume, { s with mountNextVolume := false }) else (none, s)
  | (some bsr, s) =>
      if devAddr > getBsrStartAddr bsr then (none, s) else (some (.reposition (getBsrStartAddr bsr)), s)

/-- `is_this_bsr_done`. -/
def isThisBsrDone (s : State) (session : UInt32 × UInt32) : Bool × State :=
  match s.recBsr session with
  | none => (false, s)
  | some i =>
      let s := { s with recBsr := Function.update s.recBsr session none }
      match s.chain[i]? with
      | none => (false, s)
      | some bsr =>
          let bsr := { bsr with found := bsr.found + 1 }
          if bsr.count ≠ 0 ∧ bsr.count ≤ bsr.found then
            (true, { s with chain := s.chain.set i { bsr with done := true }, reposition := true })
          else (false, { s with chain := s.chain.set i bsr })

/-- How the loop over the records of a block ends. -/
inductive BlockEnd where
  | nextBlock
  | moved (move : Move)
  | allDone

structure ReadBlock where
  passed : List DevRecord
  blockEnd : BlockEnd
  state : State

/-- The record that goes on in the next block. -/
def readUnfinished (s : State) (volumeName : String) (block : Block) : ReadBlock :=
  match block.unfinished with
  | none => ⟨[], .nextBlock, s⟩
  | some rec =>
      let (stat, s) := matchBsr s volumeName block rec
      match stat with
      | .noMore => ⟨[], .allDone, s⟩
      | .matches => ⟨[], .nextBlock, s⟩
      | .noMatch =>
          let (move, s) := tryRepositioning s volumeName block.devAddr
          match move with
          | some move => ⟨[], .moved move, s⟩
          | none => ⟨[], .nextBlock, s⟩

/-- The loop over the records of a block, with the index of the last record that was passed. -/
def readRecs (volumeName : String) (block : Block) : List DevRecord → Option ℤ → State → ReadBlock
  | [], _, s => readUnfinished s volumeName block
  | rec :: recs, lastFileIndex, s =>
      let (stat, s) := matchBsr s volumeName block rec
      match stat with
      -- all items found, stop
      | .noMore => ⟨[], .allDone, s⟩
      | .noMatch =>
          let (move, s) := tryRepositioning s volumeName block.devAddr
          match move with
          | some move => ⟨[], .moved move, s⟩
          | none => readRecs volumeName block recs lastFileIndex s
      | .matches =>
          let (done, s) :=
            if lastFileIndex ≠ none ∧ lastFileIndex ≠ some rec.fileIndex then
              isThisBsrDone s block.session
            else (false, s)
          let (move, s) := if done then tryRepositioning s volumeName block.devAddr else (none, s)
          match move with
          | some move => ⟨[], .moved move, s⟩
          | none =>
              let rest := readRecs volumeName block recs (some rec.fileIndex) s
              { rest with passed := rec :: rest.passed }

/-- The device is sent to an address in front of it. -/
def seek (addr : UInt64) (blocks : List Block) : List Block := blocks.dropWhile (·.blockAddr ≠ addr)

theorem seek_length (addr : UInt64) (blocks : List Block) : (seek addr blocks).length ≤ blocks.length :=
  (List.dropWhile_sublist _).length_le

structure ReadVolume where
  passed : List DevRecord
  allDone : Bool
  state : State

def readBlocks (volumeName : String) (blocks : List Block) (s : State) : ReadVolume :=
  match blocks with
  | [] => ⟨[], false, s⟩
  | block :: blocks =>
      let now := readRecs volumeName block block.recs none s
      match now.blockEnd with
      | .allDone => ⟨now.passed, true, now.state⟩
      | .moved .nextVolume => ⟨now.passed, false, now.state⟩
      | .moved (.reposition addr) =>
          let later := readBlocks volumeName (seek addr blocks) now.state
          { later with passed := now.passed ++ later.passed }
      | .nextBlock =>
          let later := readBlocks volumeName blocks now.state
          { later with passed := now.passed ++ later.passed }
termination_by blocks.length
decreasing_by
  · exact Nat.lt_succ_of_le (seek_length addr blocks)
  · exact Nat.lt_succ_self _

/-- `position_to_first_file` when a volume was mounted. -/
def positionToFirstFile (s : State) (volume : Volume) : List Block × State :=
  if s.chain = [] then (volume.blocks, s)
  else
    match findNextBsr { s with reposition := true } volume.volumeName with
    | (none, s) => (volume.blocks, s)
    | (some bsr, s) =>
        (if getBsrStartAddr bsr > 0 then seek (getBsrStartAddr bsr) volume.blocks else volume.blocks, s)

/-- `read_records`, one volume after the other. -/
def readRecords : List Volume → State → List DevRecord
  | [], _ => []
  | volume :: volumes, s =>
      let (blocks, s) := positionToFirstFile s volume
      let now := readBlocks volume.volumeName blocks s
      if now.allDone then now.passed else now.passed ++ readRecords volumes now.state

end Bacula.MatchBsr
