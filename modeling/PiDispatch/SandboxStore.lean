import PiDispatch.Clock
import PiDispatch.Kernel.Files
import PiDispatch.Kernel.Rely
import PiDispatch.Kernel.Service
import PiDispatch.RunBudgetLedger
import PiDispatch.TouchState

/-! The retained runs of a worker: a job's directory moves under the retention root, with a manifest that says what it was run
as, and a pin writes the manifest back with a later deadline. The worker retains one run at a time; pins come from other
processes, and each call on the file system is one step. -/
namespace PiDispatch.SandboxStore
open Kernel
open RunBudgetLedger (sanitizeJobId)
open TouchState (lettersOf)

def HOUR_MS : Nat := 3600000
def DAY_MS : Nat := 86400000

structure JobUser where
  user : Option String
  home : Option String
  deriving DecidableEq

structure Size where
  memMiB : Nat
  cpuCenti : Nat
  source : String
  deriving DecidableEq

/-- What a manifest says of its run. An instant stands for its text. -/
structure Fields where
  jobId : String
  baseSha : Option String
  kind : Option String
  image : Option String
  backend : Option String
  jobUser : Option JobUser
  podmanStore : Option String
  size : Option Size
  workspace : Option String
  createdAt : Instant
  retainUntil : Option Instant
  deriving DecidableEq

/-- A manifest; a version that is there and is no positive integer is none in it. -/
structure Manifest extends Fields where
  version : Option (Option Nat)
  keepUntil : Option Instant
  deriving DecidableEq

inductive FileName
  | manifest
  | temp (stamp : Nat)
  | other (name : String)
  deriving DecidableEq

abbrev Disk := Files FileName Manifest

def sandboxEntryName (jobId : String) : String :=
  let name := sanitizeJobId jobId
  if name.toList.head?.any fun letter => letter = '.' || letter = '_' then "_" ++ name else name

/-- No field needs a later version, so what is left of a manifest's version is the one it was given. -/
def withManifestVersion (manifest : Manifest) : Manifest :=
  let needed := max (((manifest.version.bind id).filter fun version => 1 ≤ version).getD 1) 1
  if needed ≤ 1 then { manifest with version := none } else { manifest with version := some (some needed) }

def sandboxManifestNewer (manifest : Manifest) (supported : Nat) : Bool :=
  manifest.version.any fun version => !version.any fun version => 1 ≤ version && version ≤ supported

inductive Command
  | prepare
  | list (name : String)
  | unlink (name : String) (file : FileName)
  | rmdir (name : String)
  | adopt (name : String) (dir : Nat)
  | openManifest (name : String)
  | write (inode : Nat) (content : Manifest)
  | read (name : String)
  | lstat (name : String)
  | create (name : String) (stamp : Nat)
  | chmod (name : String) (stamp : Nat)
  | place (name : String) (stamp : Nat)

@[reducible] def Command.Answer : Command → Type
  | .list _ => List FileName
  | .openManifest _ | .create _ _ => Nat
  | .read _ => Option Manifest
  | _ => Unit

@[reducible] def Calls : Signature := ⟨Command,fun command => Except FileFault command.Answer⟩

abbrev Call (α : Type) := Program Calls α

section Answers

variable (disk : Disk)

def present (name : String) (file : FileName) : Except FileFault Unit :=
  if (disk.find name file).isSome then .ok () else .error .missing

/-- A call that succeeds, or that fails as the file system makes it. -/
def answer : (command : Command) → Except FileFault command.Answer × Disk
  | .prepare => (.ok (),disk)
  | .list name => (((disk.names name).map fun dir => (disk.inside dir).keys).elim (.error .missing) .ok,disk)
  | .unlink name file => disk.unlink name file
  | .rmdir name => disk.rmdir name
  | .adopt name dir => disk.adopt name dir
  | .openManifest name => disk.openFile name .manifest
  | .write inode content => (.ok (),disk.write inode content)
  | .read name => (disk.read name .manifest,disk)
  | .lstat name => (present disk name .manifest,disk)
  | .create name stamp => disk.create name (.temp stamp)
  | .chmod name stamp => (present disk name (.temp stamp),disk)
  | .place name stamp => disk.place name (.temp stamp) .manifest

/-- A call is answered so, lists in any order, or fails for a reason of its own. -/
def serves (command : Command) (reply : Except FileFault command.Answer) (next : Disk) : Prop :=
  (∃ fault, reply = .error fault ∧ next = disk) ∨
  (match command,reply with
    | .list name,.ok files => ∃ dir, disk.names name = some dir ∧ files.Perm (disk.inside dir).keys ∧ next = disk
    | command,reply => reply = (answer disk command).1 ∧ next = (answer disk command).2)

end Answers

def issue {α : Type} (command : Command) (resume : Except FileFault command.Answer → Call α) : Call α :=
  @Program.issue Calls α command resume

section Removal

variable (name : String)

def unlinkAll : List FileName → Call Bool
  | [] => .done true
  | file :: rest => issue (.unlink name file) fun
    | .ok _ => unlinkAll rest
    | .error .missing => unlinkAll rest
    | .error _ => .done false

/-- One try of a removal, and what is done where something has come in between. -/
def removing (again : Call Bool) : Call Bool :=
  issue (.list name) fun
    | .error .missing => .done true
    | .error _ => .done false
    | .ok files => (unlinkAll name files).bind fun
      | false => .done false
      | true => issue (.rmdir name) fun
        | .ok _ => .done true
        | .error .missing => .done true
        | .error .notEmpty => again
        | .error _ => .done false

/-- `rmSync`, which tries again a number of times; whether all is gone. -/
def remove : Nat → Call Bool
  | 0 => removing name (.done false)
  | patience + 1 => removing name (remove patience)

end Removal

structure Meta where
  jobId : String
  kind : Option String
  image : Option String
  backend : Option String
  jobUser : Option JobUser
  podmanStore : Option String
  size : Option Size

structure Prepared where
  jobDir : String
  workspace : Option String
  sha : Option String
  sandbox : Option Meta

/-- Where a workspace inside the job's directory is once that has moved. Paths are absolute and normal. -/
def rebaseWorkspace (workspace : Option String) (jobDir dest : String) : Option String :=
  workspace.map fun workspace =>
    if (jobDir ++ "/").toList.isPrefixOf workspace.toList then
      String.ofList (dest.toList ++ workspace.toList.drop jobDir.toList.length)
    else workspace

def isSha (sha : String) : Bool :=
  lettersOf (fun letter => letter.isDigit || letter ∈ ['a','b','c','d','e','f']) 40 40 sha ||
    lettersOf (fun letter => letter.isDigit || letter ∈ ['a','b','c','d','e','f']) 64 64 sha

/-- The root's path, the hours a run is retained, how often a removal is tried again, and the version that is read. -/
structure Config where
  sandboxDir : String
  retentionHours : Option Nat
  patience : Nat
  supported : Nat

section Retention

variable (config : Config)

def fieldsOf (prepared : Prepared) (sandbox : Meta) (created : Instant) : Fields where
  jobId := sandbox.jobId
  baseSha := prepared.sha.filter isSha
  kind := sandbox.kind
  image := sandbox.image
  backend := sandbox.backend
  jobUser := sandbox.jobUser
  podmanStore := sandbox.podmanStore
  size := sandbox.size
  workspace := rebaseWorkspace prepared.workspace prepared.jobDir (config.sandboxDir ++ "/" ++ sandboxEntryName sandbox.jobId)
  createdAt := created
  retainUntil := (config.retentionHours.filter fun hours => 0 < hours).map fun hours => created + hours * HOUR_MS

/-- The manifest of a run, where it is retained. The directory's own identity goes with it when it moves. -/
def retainJobDir (sandbox : Meta) (fields : Fields) (dir : Nat) : Call (Option Manifest) :=
  if sandbox.jobId = "" then .done none
  else
    let name := sandboxEntryName sandbox.jobId
    let manifest := withManifestVersion { fields with version := none, keepUntil := none }
    let failed : Call (Option Manifest) := (remove name config.patience).bind fun _ => .done none
    issue .prepare fun
      | .error _ => failed
      | .ok _ => (remove name config.patience).bind fun
        | false => failed
        | true => issue (.adopt name dir) fun
          | .error _ => failed
          | .ok _ => issue (.openManifest name) fun
            | .error _ => failed
            | .ok inode => issue (.write inode manifest) fun
              | .error _ => failed
              | .ok _ => .done (some manifest)

end Retention

inductive Pinned
  | absent
  | manifestNewer
  | failed
  | pinned (keepUntil : Instant)
  deriving DecidableEq

section Pins

variable (config : Config)

def readAt (name : String) : Call (Option (Manifest × String)) :=
  issue (.read name) fun
    | .ok (some manifest) => .done (some (manifest,name))
    | _ => .done none

/-- A manifest by its run, and the name it lies under. -/
def readManifest (jobId : String) : Call (Option (Manifest × String)) :=
  let escaped := sandboxEntryName jobId
  let legacy := sanitizeJobId jobId
  (readAt escaped).bind fun found =>
    if found.any fun found => found.1.jobId = jobId then .done found
    else if legacy = escaped ∨ legacy.toList.head? = some '.' then .done found
    else (readAt legacy).bind fun old =>
      .done (if old.any fun old => old.1.jobId = jobId then old else found)

def pinSandbox (jobId : String) (pinDays : Nat) (now : Instant) (stamp : Nat) : Call Pinned :=
  (readManifest jobId).bind fun
    | none => .done .absent
    | some (manifest,name) =>
      if sandboxManifestNewer manifest config.supported then .done .manifestNewer
      else
        let keepUntil := now + pinDays * DAY_MS
        let undone : Call Pinned := issue (.unlink name (.temp stamp)) fun _ => .done .failed
        issue (.lstat name) fun
          | .error _ => .done .failed
          | .ok _ => issue (.create name stamp) fun
            | .error _ => .done .failed
            | .ok inode => issue (.write inode (withManifestVersion { manifest with keepUntil := some keepUntil })) fun
              | .error _ => .done .failed
              | .ok _ => issue (.chmod name stamp) fun
                | .error _ => undone
                | .ok _ => issue (.place name stamp) fun
                  | .error _ => undone
                  | .ok _ => .done (.pinned keepUntil)

end Pins

/-- A pin that another process makes; its temporary file has a name of its own. What it has seen under a name is the directory
that it last read a manifest from. -/
structure Pin where
  stamp : Nat
  seen : String → Option Nat
  program : Call Pinned

def sees (seen : String → Option Nat) (disk : Disk) : Command → String → Option Nat
  | .read name => Function.update seen name (disk.names name)
  | _ => seen

/-- The disk, what the worker is about, the pins, and what each directory's run was retained with. -/
structure World where
  disk : Disk
  worker : Option (Call (Option Manifest))
  pins : List Pin
  stamps : Nat
  written : Nat → Option Fields

def World.empty : World := ⟨.empty,none,[],0,fun _ => none⟩

/-- A job's directory as the job has left it, none of whose own entries is a manifest. -/
def laid (disk : Disk) (tree : List String) : Disk :=
  tree.foldl (fun files entry => files.add disk.nextDir (.other entry)) { disk with nextDir := disk.nextDir + 1 }

/-- The worker retains run after run; pins come and go in between its calls. -/
inductive Step (config : Config) (allowed : World → Pin → Command → Prop) : World → World → Prop
  | retain (world prepared sandbox created tree) (idle : world.worker = none) (given : Prepared.sandbox prepared = some sandbox) :
      Step config allowed world { world with
        disk := laid world.disk tree
        worker := some (retainJobDir config sandbox (fieldsOf config prepared sandbox created) world.disk.nextDir)
        written := Function.update world.written world.disk.nextDir (some (fieldsOf config prepared sandbox created)) }
  | works (world command resume reply disk) (waits : world.worker = some (.issue command resume))
      (served : serves world.disk command reply disk) :
      Step config allowed world { world with disk := disk, worker := some (resume reply) }
  | rests (world value) (over' : world.worker = some (.done value)) : Step config allowed world { world with worker := none }
  | pin (world jobId pinDays now) :
      Step config allowed world { world with
        pins := world.pins ++ [⟨world.stamps,fun _ => none,pinSandbox config jobId pinDays now world.stamps⟩]
        stamps := world.stamps + 1 }
  | pins (world index stamp seen command resume reply disk)
      (waits : world.pins[index]? = some ⟨stamp,seen,.issue command resume⟩)
      (may : allowed world ⟨stamp,seen,.issue command resume⟩ command) (served : serves world.disk command reply disk) :
      Step config allowed world { world with
        disk := disk
        pins := world.pins.set index ⟨stamp,sees seen world.disk command,resume reply⟩ }

/-- No run but one retained alike has come to the name between the read of a pin and its rename, or the rename finds no file. -/
def steady (world : World) (pin : Pin) : Command → Bool
  | .place name stamp => (world.disk.names name).all fun dir =>
      ((world.disk.inside dir).get? (.temp stamp)).isNone || world.written dir = (pin.seen name).bind world.written
  | _ => true

end PiDispatch.SandboxStore
