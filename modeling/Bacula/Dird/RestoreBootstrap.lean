import Bacula.Lib.NextArg

/-! The bootstrap of a restore, `dird/restore.c`. Every connection, command and answer but those of
the bootstrap succeeds. -/
namespace Bacula.RestoreBootstrap
open CMemory CmdLine

def uaCmdSize : ℕ := 1000

def maxNameLength : ℕ := 128

/-- A Storage resource, with a name that `is_name_valid` accepts. -/
structure Store where
  name : List Char
  address : List Char
  SDport : ℕ
  named : name ≠ []
  short : name.length < maxNameLength

/-- `GetResWithName`. -/
def getResWithName (stores : List Store) (name : List Char) : Option Store :=
  stores.find? fun s => s.name = name

/-- What the restore reads of the job and of the configuration. -/
structure Jcr where
  FDVersion : ℕ
  stores : List Store
  rstore : Store
  known : getResWithName stores rstore.name = some rstore

/-- The line that `fgets` delivers with room for so many characters, and the rest of the file. -/
def fgets : ℕ → List Char → List Char × List Char
  | 0, bs => ([], bs)
  | _, [] => ([], [])
  | room + 1, c :: bs =>
      if c = '\n' then ([c], bs) else (c :: (fgets room bs).1, (fgets room bs).2)

theorem fgets_append (room : ℕ) (bs : List Char) : (fgets room bs).1 ++ (fgets room bs).2 = bs := by
  induction room generalizing bs with
  | zero => rfl
  | succ room ih =>
      cases bs with
      | nil => rfl
      | cons c bs =>
          simp only [fgets]
          split
          · rfl
          · simp only [List.cons_append, ih]

theorem fgets_shorter (room : ℕ) (c : Char) (bs : List Char) :
    (fgets (room + 1) (c :: bs)).2.length < (c :: bs).length := by
  have whole := congrArg List.length (fgets_append room bs)
  simp only [List.length_append] at whole
  simp only [fgets, List.length_cons]
  split <;> simp only <;> omega

/-- A file as it is read with `fgets` and a buffer of `room + 2`: what is read at one place after the
other. A seek goes back to one of these places. -/
def reads (room : ℕ) (bs : List Char) : List (List Char) :=
  match bs with
  | [] => []
  | c :: bs => (fgets (room + 1) (c :: bs)).1 :: reads room (fgets (room + 1) (c :: bs)).2
termination_by bs.length
decreasing_by exact fgets_shorter room c bs

/-- `ua->cmd` after `fgets`. -/
def cmdOf (line : List Char) : CString := ⟨cstr line, cstr_text line⟩

/-- The argument of `Storage`, if that is all there is. The value is `NULL` without a `=`. -/
def storageArg (cmd : CString) : Option (Option (List Char)) :=
  let ua := parseArgs cmd maxCmdArgs
  if ua.argc ≠ 1 then none
  else match ua.keys, ua.values with
    | key :: _, value :: _ =>
        if key.map Char.toLower = ['s', 't', 'o', 'r', 'a', 'g', 'e'] then some value else none
    | _, _ => none

def bstrncpy (src : List Char) : List Char := src.take (maxNameLength - 1)

/-- The loop of `open_bootstrap_file`, with a bound on its rounds. It reads while there is nothing to
read, and looks at what `ua->cmd` held before. -/
def openLoop : ℕ → Jcr → CString → List (List Char) → Option (List Char)
  | _, jcr, _, _ :: _ => some (bstrncpy jcr.rstore.name)
  | 0, _, _, [] => none
  | rounds + 1, jcr, cmd, [] =>
      match storageArg cmd with
      | some value => value.map bstrncpy
      | none => openLoop rounds jcr cmd []

/-- `is_on_same_storage`, without a result where it reads through `NULL`. -/
def isOnSameStorage (jcr : Jcr) (newOne : Option (List Char)) : Option Bool :=
  if jcr.FDVersion < 2 then some true
  else newOne.map fun newOne =>
    if newOne = [] then true
    else if newOne = jcr.rstore.name then true
    else match getResWithName jcr.stores newOne with
      | none => true -- if not storage found, use last one
      | some store => decide (jcr.rstore.SDport = store.SDport ∧ jcr.rstore.address = store.address)

/-- `check_for_new_storage`: the next storage name if there is one. -/
def checkForNewStorage (jcr : Jcr) (cmd : CString) : Option (Option (List Char)) :=
  match storageArg cmd with
  | none => some none
  | some value => (isOnSameStorage jcr value).map fun same =>
      if same then none else value.map bstrncpy

/-- `send_bootstrap_file`: what is sent, the storage name and where the file is then. -/
def sendBootstrapFile (jcr : Jcr) (storage : List Char) :
    List (List Char) → Option (List (List Char) × List Char × List (List Char))
  | [] => some ([], storage, [])
  | line :: bs => do
      match ← checkForNewStorage jcr (cmdOf line) with
      | some storage => some ([], storage, line :: bs)
      | none =>
          let (sent, storage, bs) ← sendBootstrapFile jcr storage bs
          some (cstr line :: sent, storage, bs)

/-- `select_rstore`. -/
def selectRstore (jcr : Jcr) (storage : List Char) : Option Jcr :=
  if jcr.rstore.name = storage then some jcr
  else match found : getResWithName jcr.stores storage with
    | none => none
    | some store => some { jcr with
        rstore := store
        known := by
          have same := List.find?_some found
          rw [decide_eq_true_eq] at same
          rw [same]
          exact found }

abbrev Daemon := List Char × ℕ

def Store.daemon (store : Store) : Daemon := (store.address, store.SDport)

/-- A connection to a Storage daemon, with the lines that went there. -/
structure Session where
  daemon : Daemon
  sent : List (List Char)

/-- The loop of `restore_bootstrap`, with a bound on its rounds. -/
def restoreLoop : ℕ → Jcr → List Char → List (List Char) → Option (List Session)
  | 0, _, _, _ => none
  | rounds + 1, jcr, storage, bs => do
      let jcr ← selectRstore jcr storage
      let (sent, storage, bs) ← sendBootstrapFile jcr storage bs
      let session : Session := ⟨jcr.rstore.daemon, sent⟩
      -- an old File daemon gets one loop only
      if jcr.FDVersion < 2 ∨ bs = [] then some [session]
      else
        let sessions ← restoreLoop rounds jcr storage bs
        some (session :: sessions)

/-- `restore_bootstrap`, with what `ua->cmd` holds when it is allocated. -/
def restoreBootstrap (rounds : ℕ) (jcr : Jcr) (cmd : CString) (bs : List Char) :
    Option (List Session) := do
  let bs := reads (uaCmdSize - 2) bs
  let storage ← openLoop rounds jcr cmd bs
  restoreLoop rounds jcr storage bs

end Bacula.RestoreBootstrap
