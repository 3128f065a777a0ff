import PiDispatch.Kernel.Dict
import Mathlib.Logic.Function.Basic

/-! Directories under the names of one root, and the files in them, as a host has them: a name stands for a directory and a file
name for a file, each its own, so that a rename moves what stands there and an open file keeps its identity. A content
that is not whole is none. -/
namespace PiDispatch.Kernel

variable {F C : Type} [DecidableEq F]

structure Files (F C : Type) [DecidableEq F] where
  names : String → Option Nat
  inside : Nat → Dict F Nat
  contents : Nat → Option C
  nextDir : Nat
  nextFile : Nat

inductive FileFault
  | missing
  | exists'
  | notEmpty
  | other
  deriving DecidableEq

namespace Files

def empty : Files F C := ⟨fun _ => none,fun _ => .empty,fun _ => none,0,0⟩

/-- The file of a name in a directory. -/
def entry (files : Files F C) (dir : Nat) (file : F) : Option Nat := (files.inside dir).get? file

/-- The file that a path names. -/
def find (files : Files F C) (name : String) (file : F) : Option Nat :=
  (files.names name).bind fun dir => (files.inside dir).get? file

/-- What is read at a path: none in it where the content is not whole. -/
def read (files : Files F C) (name : String) (file : F) : Except FileFault (Option C) :=
  match files.find name file with
  | none => .error .missing
  | some inode => .ok (files.contents inode)

def link (files : Files F C) (dir : Nat) (file : F) (inode : Nat) : Files F C :=
  { files with inside := Function.update files.inside dir ((files.inside dir).set file inode) }

/-- A new file, as yet without content. -/
def add (files : Files F C) (dir : Nat) (file : F) : Files F C :=
  { files.link dir file files.nextFile with
    contents := Function.update files.contents files.nextFile none, nextFile := files.nextFile + 1 }

/-- A file opened for writing: the one that is there, cut to nothing, or a new one. -/
def openFile (files : Files F C) (name : String) (file : F) : Except FileFault Nat × Files F C :=
  match files.names name with
  | none => (.error .missing,files)
  | some dir => match (files.inside dir).get? file with
    | some inode => (.ok inode,{ files with contents := Function.update files.contents inode none })
    | none => (.ok files.nextFile,files.add dir file)

/-- A file that must not be there yet. -/
def create (files : Files F C) (name : String) (file : F) : Except FileFault Nat × Files F C :=
  match files.names name with
  | none => (.error .missing,files)
  | some dir =>
    if ((files.inside dir).get? file).isSome then (.error .exists',files) else (.ok files.nextFile,files.add dir file)

def write (files : Files F C) (inode : Nat) (content : C) : Files F C :=
  { files with contents := Function.update files.contents inode (some content) }

/-- One file takes another one's name. -/
def place (files : Files F C) (name : String) (source target : F) : Except FileFault Unit × Files F C :=
  match files.names name with
  | none => (.error .missing,files)
  | some dir => match (files.inside dir).get? source with
    | none => (.error .missing,files)
    | some inode => (.ok (),
        { files with inside := Function.update files.inside dir (((files.inside dir).erase source).set target inode) })

def unlink (files : Files F C) (name : String) (file : F) : Except FileFault Unit × Files F C :=
  match files.names name with
  | none => (.error .missing,files)
  | some dir =>
    if ((files.inside dir).get? file).isNone then (.error .missing,files)
    else (.ok (),{ files with inside := Function.update files.inside dir ((files.inside dir).erase file) })

def rmdir (files : Files F C) (name : String) : Except FileFault Unit × Files F C :=
  match files.names name with
  | none => (.error .missing,files)
  | some dir =>
    if (files.inside dir).entries ≠ [] then (.error .notEmpty,files)
    else (.ok (),{ files with names := Function.update files.names name none })

/-- A directory from elsewhere takes a name, where there is none of that name or an empty one. -/
def adopt (files : Files F C) (name : String) (dir : Nat) : Except FileFault Unit × Files F C :=
  if (files.names name).any fun old => (files.inside old).entries ≠ [] then (.error .notEmpty,files)
  else (.ok (),{ files with names := Function.update files.names name (some dir) })

section Laws

variable {files : Files F C} {name : String} {dir inode : Nat} {file other : F}

theorem entry_link (dir other : Nat) (file last : F) (inode : Nat) :
    (files.link dir file inode).entry other last =
      if other = dir ∧ last = file then some inode else files.entry other last := by
  unfold entry link
  dsimp only
  by_cases same : other = dir
  · subst same
    rw [Function.update_self,Dict.get?_set]
    by_cases own : file = last
    · simp [own]
    · simp [own,Ne.symm own]
  · rw [Function.update_of_ne same]
    simp [same]

theorem entry_add (dir other : Nat) (file last : F) :
    (files.add dir file).entry other last =
      if other = dir ∧ last = file then some files.nextFile else files.entry other last := entry_link dir other file last _

theorem read_ok {content : Option C} (reads : files.read name file = .ok content) :
    ∃ dir inode, files.names name = some dir ∧ files.entry dir file = some inode ∧ content = files.contents inode := by
  unfold read find at reads
  cases named : files.names name with
  | none => simp [named] at reads
  | some dir => cases found : (files.inside dir).get? file with
    | none => simp [named,found] at reads
    | some inode =>
      simp only [named,Option.bind_some,found,Except.ok.injEq] at reads
      exact ⟨dir,inode,rfl,found,reads.symm⟩

/-- Opening cuts a file to nothing or adds one. -/
theorem openFile_cases : (∃ fault, files.openFile name file = (.error fault,files)) ∨
    (∃ dir inode, files.names name = some dir ∧ files.entry dir file = some inode ∧ files.openFile name file =
      (.ok inode,{ files with contents := Function.update files.contents inode none })) ∨
    ∃ dir, files.names name = some dir ∧ files.entry dir file = none ∧
      files.openFile name file = (.ok files.nextFile,files.add dir file) := by
  unfold openFile entry
  cases files.names name with
  | none => exact .inl ⟨_,rfl⟩
  | some dir =>
    dsimp only
    cases found : (files.inside dir).get? file with
    | none => exact .inr (.inr ⟨dir,rfl,found,rfl⟩)
    | some inode => exact .inr (.inl ⟨dir,inode,rfl,found,rfl⟩)

theorem create_cases : (∃ fault, files.create name file = (.error fault,files)) ∨
    ∃ dir, files.names name = some dir ∧ files.entry dir file = none ∧
      files.create name file = (.ok files.nextFile,files.add dir file) := by
  unfold create entry
  cases files.names name with
  | none => exact .inl ⟨_,rfl⟩
  | some dir =>
    dsimp only
    split
    · exact .inl ⟨_,rfl⟩
    · next absent => exact .inr ⟨dir,rfl,by simpa using absent,rfl⟩

theorem place_cases (source target : F) : (∃ fault, files.place name source target = (.error fault,files)) ∨
    ∃ dir inode, files.names name = some dir ∧ files.entry dir source = some inode ∧
      (files.place name source target).1 = .ok () ∧ (files.place name source target).2 =
        { files with inside := Function.update files.inside dir (((files.inside dir).erase source).set target inode) } := by
  unfold place entry
  cases files.names name with
  | none => exact .inl ⟨_,rfl⟩
  | some dir =>
    dsimp only
    cases found : (files.inside dir).get? source with
    | none => exact .inl ⟨_,rfl⟩
    | some inode => exact .inr ⟨dir,inode,rfl,found,rfl,rfl⟩

theorem entry_place (dir other : Nat) (source target last : F) (inode : Nat) :
    Files.entry { files with
      inside := Function.update files.inside dir (((files.inside dir).erase source).set target inode) } other last =
      if other = dir ∧ last = target then some inode else if other = dir ∧ last = source then none
      else files.entry other last := by
  unfold entry
  dsimp only
  by_cases same : other = dir
  · subst same
    rw [Function.update_self,Dict.get?_set,Dict.get?_erase]
    by_cases own : target = last
    · simp [own]
    · by_cases old : source = last
      · simp [own,old,Ne.symm own]
      · simp [own,old,Ne.symm own,Ne.symm old]
  · rw [Function.update_of_ne same]
    simp [same]

/-- A file unlinked leaves every other one where it is. -/
theorem unlink_keeps : (files.unlink name file).2.names = files.names ∧
    (files.unlink name file).2.contents = files.contents ∧ (files.unlink name file).2.nextDir = files.nextDir ∧
    (files.unlink name file).2.nextFile = files.nextFile ∧ ∀ dir last inode,
      (files.unlink name file).2.entry dir last = some inode → files.entry dir last = some inode := by
  unfold unlink
  split
  · exact ⟨rfl,rfl,rfl,rfl,fun _ _ _ same => same⟩
  · next dir named =>
    split
    · exact ⟨rfl,rfl,rfl,rfl,fun _ _ _ same => same⟩
    · refine ⟨rfl,rfl,rfl,rfl,fun other last inode found => ?_⟩
      unfold entry at found ⊢
      dsimp only at found
      by_cases same : other = dir
      · subst same
        rw [Function.update_self,Dict.get?_erase] at found
        split at found
        · cases found
        · exact found
      · rw [Function.update_of_ne same] at found
        exact found

theorem rmdir_keeps : (files.rmdir name).2.inside = files.inside ∧ (files.rmdir name).2.contents = files.contents ∧
    (files.rmdir name).2.nextDir = files.nextDir ∧ (files.rmdir name).2.nextFile = files.nextFile ∧
    ∀ other dir, (files.rmdir name).2.names other = some dir → files.names other = some dir := by
  unfold rmdir
  split
  · exact ⟨rfl,rfl,rfl,rfl,fun _ _ same => same⟩
  · split
    · exact ⟨rfl,rfl,rfl,rfl,fun _ _ same => same⟩
    · refine ⟨rfl,rfl,rfl,rfl,fun other dir named => ?_⟩
      dsimp only at named
      by_cases same : other = name
      · subst same
        rw [Function.update_self] at named
        cases named
      · rwa [Function.update_of_ne same] at named

theorem adopt_keeps (dir : Nat) : (files.adopt name dir).2.inside = files.inside ∧
    (files.adopt name dir).2.contents = files.contents ∧ (files.adopt name dir).2.nextDir = files.nextDir ∧
    (files.adopt name dir).2.nextFile = files.nextFile ∧
    ∀ other last, (files.adopt name dir).2.names other = some last → last = dir ∨ files.names other = some last := by
  unfold adopt
  split
  · exact ⟨rfl,rfl,rfl,rfl,fun _ _ same => .inr same⟩
  · refine ⟨rfl,rfl,rfl,rfl,fun other last named => ?_⟩
    dsimp only at named
    by_cases same : other = name
    · subst same
      rw [Function.update_self] at named
      exact .inl (Option.some.inj named).symm
    · rw [Function.update_of_ne same] at named
      exact .inr named

theorem adopt_ok {dir : Nat} (adopted : (files.adopt name dir).1 = .ok ()) :
    (files.adopt name dir).2.names name = some dir := by
  unfold adopt at adopted ⊢
  split at adopted
  · cases adopted
  · next free =>
    rw [if_neg free]
    exact Function.update_self ..

end Laws

end Files

end PiDispatch.Kernel
