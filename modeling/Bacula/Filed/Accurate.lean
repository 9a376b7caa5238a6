import Bacula.Filed.SendAttributes
import Bacula.Findlib.Attribs
import Bacula.Lib.HtableMap

/-! Accurate backups: the list of the files in the Catalog that `dird/backup.c` sends, and
`filed/accurate.c`, which keeps the list in a hash table, compares with it what is found, and sends
what was not seen. The network is left out, and a checksum of a file is given with the file. -/
namespace Bacula.Accurate
open Attribs Scan SendAttributes

inductive JobLevel where
  | full
  | incremental
  | differential
  | verifyData
  deriving DecidableEq

structure JCR where
  accurate : Bool
  rerunning : Bool
  level : JobLevel
  /-- Canceled or incomplete. -/
  stopped : Bool

/-! ## The Director -/

/-- A row of the Catalog. -/
structure Row where
  path : List UInt8
  filename : List UInt8
  fileIndex : ℤ
  lstat : List UInt8
  deltaSeq : UInt16
  /-- The seventh field, when checksums were asked for. -/
  md5 : Option (List UInt8)
  deriving DecidableEq

/-- `accurate_list_handler`. -/
def accurateListHandler (useAccurateChksum : Bool) (row : Row) : Option (List UInt8) :=
  -- discard when file_index == 0
  if row.fileIndex = 0 then none
  else
    let name := row.path ++ row.filename
    let delta := decimal row.deltaSeq.toNat
    match row.md5 with
    | some md5 =>
        -- skip checksum = '0'
        if useAccurateChksum ∧ 2 ≤ md5.length then
          some (name ++ 0 :: (row.lstat ++ 0 :: (md5 ++ 0 :: delta)))
        else some (name ++ 0 :: (row.lstat ++ 0 :: 0 :: delta))
    | none => some (name ++ 0 :: (row.lstat ++ 0 :: 0 :: delta))

/-! ## The list -/

structure CurFile where
  fname : List UInt8
  lstat : List UInt8
  chksum : List UInt8
  deltaSeq : Int32
  seen : Bool
  deriving DecidableEq

/-- The hash table with the memory of its items. -/
structure FileList where
  table : Htable ℕ
  mem : ℕ → Htable.Hlink ℕ .key
  item : ℕ → CurFile
  /-- How many items were allocated. -/
  used : ℕ

def accurateInit (nbfile : Int32) : FileList :=
  ⟨Htable.init nbfile, fun _ => ⟨none, 0, ([] : List UInt8)⟩, fun _ => ⟨[], [], [], 0, false⟩, 0⟩

def FileList.lookup (rounds : ℕ) (list : FileList) (fname : List UInt8) :
    Option (Option ℕ × FileList) := do
  let (found, table) ← list.table.lookup rounds list.mem fname
  some (found, { list with table })

def accurateMarkFileAsSeen (rounds : ℕ) (list : FileList) (fname : List UInt8) : Option FileList := do
  let (found, list) ← list.lookup rounds fname
  match found with
  | some temp =>
      some { list with item := Function.update list.item temp { list.item temp with seen := true } }
  | none => some list

def accurateAddFile (rounds : ℕ) (list : FileList) (fname lstat chksum : List UInt8) (delta : Int32) :
    Option FileList := do
  let item := Function.update list.item list.used ⟨fname, lstat, chksum, delta, false⟩
  let (_, table, mem) ← list.table.insert rounds list.mem fname list.used
  some ⟨table, mem, item, list.used + 1⟩

/-- A message of the loop in `accurate_cmd`. -/
def receive (rounds : ℕ) (list : FileList) (msg : List UInt8) : Option FileList :=
  let lstat := afterNul msg
  if lstat = [] then some list
  else
    let chksum := afterNul lstat
    -- no checksum, point to the last \0
    if chksum = [] then accurateAddFile rounds list (cstr msg) (cstr lstat) [] 0
    else
      let deltaSeq := (strToInt32 (afterNul chksum)).toUInt32.toUInt16
      accurateAddFile rounds list (cstr msg) (cstr lstat) (cstr chksum) deltaSeq.toUInt32.toInt32

def accurateCmd (rounds : ℕ) (nb : Int32) (msgs : List (List UInt8)) : Option FileList :=
  msgs.foldlM (receive rounds) (accurateInit nb)

/-! ## The files that are found -/

variable {p : Platform}

/-- A file with the options that apply to it. -/
structure File (p : Platform) where
  pkt : FFPkt
  statp : Stat p
  baseJobOpts : List Char
  accurateOpts : List Char
  incremental : Bool
  saveTime : ℤ
  mtimeOnly : Bool
  /-- One of the checksums is asked for. -/
  digestFlag : Bool
  /-- The checksum of the file as text, if it can be read. -/
  digest : Option (List UInt8)

def S_IFMT : ℕ := 0o170000

def sIsDir (stat : Stat p) : Bool := (stat .mode).toNat &&& S_IFMT = 0o040000

def sIsReg (stat : Stat p) : Bool := (stat .mode).toNat &&& S_IFMT = 0o100000

/-- The number in a field. -/
def value (stat : Stat p) (field : StatField) : ℤ :=
  if (p.type field).signed then (stat field).toInt else (stat field).toNat

/-- One of the options of `accurate_check_file`. -/
def optDiffers (jcr : JCR) (chksum : List UInt8) (statc : Stat p) (file : File p) : Char → Bool
  | 'i' => statc .ino ≠ file.statp .ino
  | 'p' => statc .mode ≠ file.statp .mode
  | 'n' => statc .nlink ≠ file.statp .nlink
  | 'u' => statc .uid ≠ file.statp .uid
  | 'g' => statc .gid ≠ file.statp .gid
  | 's' => statc .size ≠ file.statp .size
  | 'a' => statc .atime ≠ file.statp .atime
  | 'm' => statc .mtime ≠ file.statp .mtime
  -- look mtime/ctime like normal incremental backup
  | 'M' => file.incremental ∧ value file.statp .mtime > file.saveTime ∧
      (file.mtimeOnly ∨ value file.statp .ctime > file.saveTime)
  | 'c' => statc .ctime ≠ file.statp .ctime
  -- file size decrease
  | 'd' => value statc .size > value file.statp .size
  | 'A' => true
  | '5' | '1' =>
      if file.pkt.type ≠ .LNKSAVED ∧ sIsReg file.statp ∧ file.digestFlag then
        if chksum = [] ∧ ¬ jcr.rerunning then true
        else match file.digest with
          | some digest => digest ≠ chksum
          | none => false
      else false
  | _ => false

/-- The name under which a file is looked up. -/
def File.name (file : File p) : List UInt8 :=
  let pkt := stripPath file.pkt
  if sIsDir file.statp then pkt.linkName else pkt.fname

def File.opts (jcr : JCR) (file : File p) : List Char :=
  if ¬ jcr.rerunning ∧ jcr.level = .full then file.baseJobOpts else file.accurateOpts

structure Checked where
  /-- It must be backed up. -/
  changed : Bool
  accurateFound : Bool
  deltaSeq : Int32
  deriving DecidableEq

/-- `accurate_check_file`. The packet is zero before it is decoded. -/
def accurateCheckFile (rounds : ℕ) (jcr : JCR) (list : FileList) (file : File p) :
    Option (Checked × FileList) :=
  if ¬ jcr.accurate ∧ ¬ jcr.rerunning then some (⟨true, false, 0⟩, list)
  else do
    let (found, list) ← list.lookup rounds file.name
    match found with
    | none => some (⟨true, false, 0⟩, list)
    | some temp =>
        let elt := list.item temp
        let (decoded, _) ← ((decodeStat (p := p) fun _ => 0).run (elt.lstat ++ [0])).toOption
        let changed := (file.opts jcr).any (optDiffers jcr elt.chksum decoded.stat file)
        -- in Full+Base mode, we mark only if the file match exactly
        let list ←
          if jcr.level = .full ∧ changed then some list
          else accurateMarkFileAsSeen rounds list elt.fname
        some (⟨changed, true, elt.deltaSeq⟩, list)

def checkFiles (rounds : ℕ) (jcr : JCR) : List (File p) → FileList → Option (List Checked × FileList)
  | [], list => some ([], list)
  | file :: files, list => do
      let (checked, list) ← accurateCheckFile rounds jcr list file
      let (rest, list) ← checkFiles rounds jcr files list
      some (checked :: rest, list)

/-- The attributes that are sent of an item. -/
structure Sent (p : Platform) where
  type : FT
  fname : List UInt8
  statp : Stat p

def CurFile.sent (type : FT) (elt : CurFile) : Option (Sent p) := do
  let (decoded, _) ← ((decodeStat (p := p) fun _ => 0).run (elt.lstat ++ [0])).toOption
  match type with
  | .DELETED => some ⟨type, elt.fname, Function.update
      (Function.update (fun _ => 0) .mtime (decoded.stat .mtime)) .ctime (decoded.stat .ctime)⟩
  | _ => some ⟨type, elt.fname, decoded.stat⟩

/-- The items that `foreach_htable` sees. -/
def FileList.items (rounds : ℕ) (list : FileList) : Option (List CurFile) := do
  let (items, _) ← Iterator.drain (Htable.next list.mem) rounds list.table.first
  some (items.map list.item)

def accurateSendBaseFileList (rounds : ℕ) (list : FileList) : Option (List (Sent p)) := do
  let items ← list.items rounds
  (items.filter CurFile.seen).mapM (CurFile.sent .BASE)

def accurateSendDeletedList (rounds : ℕ) (pluginCheckFile : List UInt8 → Bool) (list : FileList) :
    Option (List (Sent p)) := do
  let items ← list.items rounds
  (items.filter fun elt => ¬ (elt.seen ∨ pluginCheckFile elt.fname)).mapM (CurFile.sent .DELETED)

def accurateCheckDeletedList (rounds : ℕ) (list : FileList) : Option Bool := do
  let items ← list.items rounds
  some (items.all CurFile.seen)

/-- `accurate_finish`: what it returns, and what it sends. -/
def accurateFinish (rounds : ℕ) (jcr : JCR) (pluginCheckFile : List UInt8 → Bool) (list : FileList) :
    Option (Bool × List (Sent p)) :=
  if jcr.stopped ∨ ¬ jcr.accurate then some (true, [])
  else match jcr.level with
    | .full =>
        if jcr.rerunning then some (true, [])
        else (accurateSendBaseFileList rounds list).map (true, ·)
    | .verifyData => (accurateCheckDeletedList rounds list).map (·, [])
    | _ => (accurateSendDeletedList rounds pluginCheckFile list).map (true, ·)

structure Run (p : Platform) where
  checked : List Checked
  ret : Bool
  sent : List (Sent p)

/-- A job with its list, from the rows that the Director has on. -/
def accurateRun (rounds : ℕ) (jcr : JCR) (useAccurateChksum : Bool) (nb : Int32) (rows : List Row)
    (pluginCheckFile : List UInt8 → Bool) (files : List (File p)) : Option (Run p) := do
  let list ← accurateCmd rounds nb (rows.filterMap (accurateListHandler useAccurateChksum))
  let jcr := { jcr with accurate := true }
  let (checked, list) ← checkFiles rounds jcr files list
  let (ret, sent) ← accurateFinish rounds jcr pluginCheckFile list
  some ⟨checked, ret, sent⟩

end Bacula.Accurate
