import Bacula.Lib.Ilist
import Bacula.Library.Transition
import Bacula.Stored.CloudTransfer

/-! `truncate_cache` of `stored/cloud_dev.c`, while other threads go on. The cloud and the cache are
listed at different times, and for each part the size in the proxy is read, the downloads are searched
and the part is removed, one after the other. A listing of the cloud is one step with the `reset` of
the proxy, and a transfer that is done has put the whole part in its place. -/
namespace Bacula.CloudTruncate
open CloudTransfer (TransferState)

abbrev Content := List UInt8

/-- The part files of a volume in the order they are read in. -/
abbrev Directory := List (ℕ × Content)

/-- A part that is there twice is the last one. -/
def Directory.content (d : Directory) (i : ℕ) : Option Content :=
  d.foldl (fun content entry => if i = entry.1 then some entry.2 else content) none

def Directory.size (d : Directory) (i : ℕ) : ℕ := ((d.content i).map List.length).getD 0

def Directory.lastPart (d : Directory) : ℕ := (d.map Prod.fst).foldl max 0

def Directory.remove (d : Directory) (i : ℕ) : Directory := d.filter fun entry => entry.1 ≠ i

def Directory.write (d : Directory) (i : ℕ) (content : Content) : Directory :=
  d.remove i ++ [(i, content)]

/-- A transfer of one of the managers, with what it has read of the part. -/
structure Transfer where
  volumeName : String
  part : ℕ
  state : TransferState
  data : Option Content
  deriving DecidableEq, Repr

/-- `upload_mgr` and `download_mgr`. -/
inductive Manager where
  | upload
  | download
  deriving DecidableEq, Repr

structure World where
  cache : String → Directory
  cloud : String → Directory
  uploads : List Transfer
  downloads : List Transfer
  /-- The sizes in `cloud_prox`. -/
  proxy : String → Ilist ℕ

def World.cached (w : World) (volName : String) (i : ℕ) : Option Content := (w.cache volName).content i

def World.uploaded (w : World) (volName : String) (i : ℕ) : Option Content :=
  (w.cloud volName).content i

/-- `transfer_manager::find`. -/
def find (transfers : List Transfer) (volName : String) (index : ℕ) : Bool :=
  transfers.any fun item => item.volumeName = volName ∧ item.part = index

/-! ## The lists of parts -/

/-- `get_cache_volume_parts_list` and the one of the driver; a part is its size. -/
def partsList (d : Directory) : Ilist ℕ :=
  d.foldl (fun parts entry => parts.put entry.1 (some entry.2.length)) (Ilist.init 100)

def resetPart (parts l : Ilist ℕ) (index : ℕ) : Ilist ℕ :=
  match parts.get index with
  | some part => l.put index (some part)
  | none => l

/-- `cloud_proxy::reset`. -/
def reset (parts : Ilist ℕ) : Ilist ℕ :=
  (List.range' 1 parts.lastItem).foldl (resetPart parts) (Ilist.init 100)

/-- `cloud_proxy::get_size`. -/
def getSize (proxy : Ilist ℕ) (index : ℕ) : ℕ := (proxy.get index).getD 0

def partGetSize (cachep : Ilist ℕ) (index : ℕ) : ℕ :=
  if index ≤ cachep.lastItem then (cachep.get index).getD 0 else 0

/-! ## The other threads -/

def World.transfers (w : World) : Manager → List Transfer
  | .upload => w.uploads
  | .download => w.downloads

def World.setTransfers (w : World) (manager : Manager) (transfers : List Transfer) : World :=
  match manager with
  | .upload => { w with uploads := transfers }
  | .download => { w with downloads := transfers }

/-- `transfer_manager::get_xfer`: a transfer of the part that is there is shared. -/
def getXfer (transfers : List Transfer) (volName : String) (part : ℕ) : List Transfer :=
  if find transfers volName part then transfers else transfers ++ [⟨volName, part, .created, none⟩]

def World.writeCache (w : World) (volName : String) (part : ℕ) (content : Content) : World :=
  { w with cache := Function.update w.cache volName ((w.cache volName).write part content) }

/-- The part is in the cloud, and `transition` sets its size in the proxy. -/
def World.writeCloud (w : World) (volName : String) (part : ℕ) (content : Content) : World :=
  { w with
    cloud := Function.update w.cloud volName ((w.cloud volName).write part content)
    proxy := Function.update w.proxy volName ((w.proxy volName).put part (some content.length)) }

/-- `probe_cloud_proxy`, when the driver can list the cloud. -/
def World.probe (w : World) (volName : String) : World :=
  { w with proxy := Function.update w.proxy volName (reset (partsList (w.cloud volName))) }

/-- What a transfer reads when it is processed. -/
def World.source (w : World) (t : Transfer) : Manager → Option Content
  | .upload => w.cached t.volumeName t.part
  | .download => w.uploaded t.volumeName t.part

/-- The end of a transfer that has gone well. -/
def World.deliver (w : World) (t : Transfer) (content : Content) : Manager → World
  | .upload => w.writeCloud t.volumeName t.part content
  | .download => w.writeCache t.volumeName t.part content

/-- `transfer::transition` with what the engine does. An engine that has read nothing has no success. -/
def World.transition (w : World) (manager : Manager) (k : ℕ) (state : TransferState) : World :=
  match (w.transfers manager)[k]? with
  | none => w
  | some t =>
      let moved (data : Option Content) : List Transfer :=
        (w.transfers manager).set k { t with state, data }
      match t.state, state, t.data with
      | .created, .queued, _ => w.setTransfers manager (moved none)
      | .queued, .created, _ => w.setTransfers manager (moved none)
      | .queued, .processed, _ => w.setTransfers manager (moved (w.source t manager))
      | .processed, .done,
          some content => (w.setTransfers manager (moved none)).deliver t content manager
      | .processed, .error, _ => w.setTransfers manager (moved none)
      | .processed, .queued, _ => w.setTransfers manager (moved none)
      | _, _, _ => w

/-- What other threads do. An upload also moves the old part of the cloud away, and may remove the part
from the cache when it is done. -/
inductive Change where
  | write (volName : String) (part : ℕ) (content : Content)
  | removeCache (volName : String) (part : ℕ)
  | removeCloud (volName : String) (part : ℕ)
  | getXfer (manager : Manager) (volName : String) (part : ℕ)
  | transition (manager : Manager) (k : ℕ) (state : TransferState)
  | release (manager : Manager) (k : ℕ)
  | probe (volName : String)
  deriving DecidableEq, Repr

def change (w : World) : Change → World
  | .write volName part content => w.writeCache volName part content
  | .removeCache volName part =>
      { w with cache := Function.update w.cache volName ((w.cache volName).remove part) }
  | .removeCloud volName part =>
      { w with cloud := Function.update w.cloud volName ((w.cloud volName).remove part) }
  | .getXfer manager volName part => w.setTransfers manager (getXfer (w.transfers manager) volName part)
  | .transition manager k state => w.transition manager k state
  | .release manager k => w.setTransfers manager ((w.transfers manager).eraseIdx k)
  | .probe volName => w.probe volName

/-! ## `truncate_cache` -/

structure Result where
  nbpart : ℤ
  size : ℕ
  msg : String
  deriving DecidableEq, Repr

inductive Stage where
  | size
  | find
  | unlink
  deriving DecidableEq, Repr

/-- Where the thread is. -/
inductive Place where
  | idle
  | probed (volName : String)
  | part (volName : String) (cacheParts : Ilist ℕ) (i : ℕ) (stage : Stage)

/-- A part that was unlinked, as it was in the cache and in the cloud then. -/
structure Unlinked where
  part : ℕ
  cached : Content
  uploaded : Option Content
  deriving DecidableEq, Repr

/-- The parts that were unlinked are a history. -/
structure State where
  world : World
  place : Place
  result : Result
  unlinked : List Unlinked

def State.init (w : World) : State := ⟨w, .idle, ⟨0, 0, ""⟩, []⟩

def cannotList (volName : String) : Result :=
  ⟨-1, 0, "Truncate cache cannot get cache volume parts list for Volume=" ++ volName ++ "\n"⟩

/-- The head of the loop. -/
def loop (volName : String) (cacheParts : Ilist ℕ) (i : ℕ) : Place :=
  if i ≤ cacheParts.lastItem then .part volName cacheParts i .size else .idle

/-- The forced probe; `ok` when the driver can list the cloud. -/
def probe (s : State) (volName : String) (ok : Bool) : State :=
  if ok then { s with world := s.world.probe volName, place := .probed volName, result := ⟨0, 0, ""⟩ }
  else { s with place := .idle, result := cannotList volName }

def list (s : State) (volName : String) (ok : Bool) : State :=
  if ok then { s with place := loop volName (partsList (s.world.cache volName)) 2 }
  else { s with place := .idle, result := cannotList volName }

def inconsistent : String :=
  "Some part(s) couldn't be truncated from the cache because they are inconsistent with the cloud."

def transferring : String :=
  "Some part(s) couldn't be truncated from the cache because they are still transferring."

def compareSizes (s : State) (volName : String) (cacheParts : Ilist ℕ) (i : ℕ) : State :=
  let cacheSize := partGetSize cacheParts i
  let cloudSize := getSize (s.world.proxy volName) i
  if cacheSize ≠ 0 ∧ cacheSize ≠ cloudSize then
    { s with place := loop volName cacheParts (i + 1), result := { s.result with msg := inconsistent } }
  else { s with place := .part volName cacheParts i .find }

def findDownload (s : State) (volName : String) (cacheParts : Ilist ℕ) (i : ℕ) : State :=
  if find s.world.downloads volName i then
    { s with place := loop volName cacheParts (i + 1), result := { s.result with msg := transferring } }
  else { s with place := .part volName cacheParts i .unlink }

/-- A part file may be one that cannot be removed. -/
def unlink (s : State) (volName : String) (cacheParts : Ilist ℕ) (i : ℕ) (removable : Bool) : State :=
  let s := { s with place := loop volName cacheParts (i + 1) }
  match s.world.cached volName i with
  | some content =>
      if removable then
        { s with
          world := change s.world (.removeCache volName i)
          result := { s.result with
            size := s.result.size + partGetSize cacheParts i, nbpart := s.result.nbpart + 1 }
          unlinked := s.unlinked ++ [⟨i, content, s.world.uploaded volName i⟩] }
      else s
  | none => s

inductive Action where
  | change (change : Change)
  | probe (volName : String) (ok : Bool)
  | list (ok : Bool)
  | compareSizes
  | findDownload
  | unlink (removable : Bool)
  deriving DecidableEq, Repr

def step (s : State) (action : Action) : Option State :=
  match action, s.place with
  | .change c, _ => some { s with world := change s.world c }
  | .probe volName ok, .idle => some (probe s volName ok)
  | .list ok, .probed volName => some (list s volName ok)
  | .compareSizes, .part volName cacheParts i .size => some (compareSizes s volName cacheParts i)
  | .findDownload, .part volName cacheParts i .find => some (findDownload s volName cacheParts i)
  | .unlink removable,
      .part volName cacheParts i .unlink => some (unlink s volName cacheParts i removable)
  | _, _ => none

/-! ## No data is lost -/

/-- A part that is not empty was in the cloud with the same contents. -/
def Unlinked.Kept (u : Unlinked) : Prop := u.cached ≠ [] → u.uploaded = some u.cached

/-- A part that is not empty had the size of the part in the cloud. -/
def Unlinked.SameSize (u : Unlinked) : Prop :=
  u.cached ≠ [] → u.uploaded.map List.length = some u.cached.length

/-- A part in the cloud, or on its way to it, that has the size of some contents has these contents. -/
structure Faithful (w : World) (volName : String) (i : ℕ) (content : Content) : Prop where
  uploaded : ∀ other, w.uploaded volName i = some other → other.length = content.length →
      other = content
  uploads : ∀ t ∈ w.uploads, t.volumeName = volName → t.part = i → ∀ other, t.data = some other →
    other.length = content.length → other = content

/-- What a change puts into the cache, but for the label. -/
def Change.Faithful (w : World) : Change → Prop
  | .write volName part content => 2 ≤ part → CloudTruncate.Faithful w volName part content
  | .transition .download k .done => ∀ t ∈ w.downloads[k]?, 2 ≤ t.part → ∀ content ∈ t.data,
      CloudTruncate.Faithful w t.volumeName t.part content
  | _ => True

/-- The volume that is being truncated, and the first part of which the turn is to come. -/
def Place.truncates : Place → Option (String × ℕ)
  | .idle => none
  | .probed volName => some (volName, 2)
  | .part volName _ i _ => some (volName, i)

/-- The parts that are to come keep their sizes. -/
def Change.Steady (s : State) (c : Change) : Prop :=
  ∀ volName first, s.place.truncates = some (volName, first) → ∀ i, first ≤ i →
    ((change s.world c).cache volName).size i = (s.world.cache volName).size i ∧
      ((change s.world c).cloud volName).size i = (s.world.cloud volName).size i

/-- No change writes a part with the size, but not the contents, of the one in the cloud. -/
def WritesFaithful (s : State) : Action → Prop
  | .change c => c.Faithful s.world
  | _ => True

/-- Nor does one alter a size between the lists and the turn of the part. -/
def Allowed (s : State) : Action → Prop
  | .change c => c.Faithful s.world ∧ c.Steady s
  | _ => True

/-- The parts of the cache, but for the labels. -/
def CacheFaithful (w : World) : Prop :=
  ∀ volName i content, 2 ≤ i → w.cached volName i = some content → Faithful w volName i content

end Bacula.CloudTruncate
