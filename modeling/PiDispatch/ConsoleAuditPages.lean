import PiDispatch.ConsoleAudit
import PiDispatch.Kernel.Ring

/-! The pages of the audit log, newest entry first: the cursor, the walk over the files with a ring for each, and the
reader that follows the cursors. -/
namespace PiDispatch.ConsoleAudit
open Kernel JsonText

variable (arithmetic : Arithmetic)

def CONSOLE_AUDIT_READ_MAX : Nat := 500

/-- A row as it is stored, or the place of a line that is none, or of a file that could not be read on. -/
inductive Entry
  | row (row : Document arithmetic)
  | broken (file : String) (line : Nat)
  | unread (file : String) (reason : String)

/-- An entry at its place in the files. -/
structure Kept where
  entry : Entry arithmetic
  file : String
  line : Nat

/-- `YYYY-MM:<line>`. -/
def posOf (file : String) (line : Nat) : Text := file.toList.take 7 ++ ':' :: decimal line

structure Cursor where
  file : String
  line : Nat

/-- `CONSOLE_AUDIT_CURSOR_RE`, and a line that is a safe integer. -/
def cursorOf (before : Text) : Option Cursor :=
  match before with
  | a :: b :: c :: d :: '-' :: e :: f :: ':' :: first :: digits =>
    let line := Nat.ofDigitChars 10 (first :: digits) 0
    if [a,b,c,d,e,f].all Char.isDigit && first ≠ '0' && (first :: digits).all Char.isDigit && digits.length ≤ 15 &&
      line ≤ Kernel.maxSafeInteger
    then some ⟨String.ofList [a,b,c,d,'-',e,f] ++ ".jsonl",line⟩
    else none
  | _ => none

/-- A limit that is no finite number is none. -/
def capOf (limit : Option Rat) : Nat :=
  min CONSOLE_AUDIT_READ_MAX (max 1 ((limit.map Int.floor).getD 100)).toNat

variable {arithmetic}

def entryOf (file : String) (line : Nat) (text : Text) : Entry arithmetic :=
  match parse arithmetic.toNumbers text with
  | some row => if (seqOf arithmetic (some row)).isSome then .row row else .broken file line
  | none => .broken file line

/-- The lines of a file up to where the page ends, if it does; how many were taken, and whether it ended there. -/
def readLines (file : String) (stop : Option Nat) : RingBuffer (Kept arithmetic) → Nat → List Text →
    RingBuffer (Kept arithmetic) × Nat × Bool
  | ring,i,[] => (ring,i,false)
  | ring,i,line :: lines =>
    if stop.any fun stop => i + 1 ≥ stop then (ring,i + 1,true)
    else readLines file stop (ring.keep ⟨entryOf file (i + 1) line,file,i + 1⟩) (i + 1) lines

/-- A file in the ring, a failed read as the entry after its last line. -/
def readFile (listing : Listing) (stop : Option Nat) (want : Nat) (file : String) : RingBuffer (Kept arithmetic) :=
  let read := readLines file stop (.new want) 0 (fileLines (listing.file file))
  match (listing.file file).fault with
  | some code =>
    if !read.2.2 && stop.all (fun stop => read.2.1 + 1 < stop) then
      read.1.keep ⟨.unread file code,file,read.2.1 + 1⟩
    else read.1
  | none => read.1

/-- The files, the newest first; `true` once a page ends before the last of them does. -/
def readFiles (listing : Listing) (bound : Option Cursor) (cap : Nat) :
    List String → List (Kept arithmetic) → List (Kept arithmetic) × Bool
  | [],out => (out,false)
  | file :: older,out =>
    if bound.any fun bound => !notAfter file bound.file then readFiles listing bound cap older out
    else
      let stop := (bound.filter fun bound => bound.file = file).map Cursor.line
      let want := cap - out.length
      let ring := readFile listing stop want file
      let out := out ++ ring.newest
      if ring.held > want then (out,true)
      else if out.length = cap ∧ older ≠ [] then (out,true)
      else readFiles listing bound cap older out

variable (arithmetic)

structure Page where
  rows : List (Entry arithmetic)
  next : Option Text
  positions : List Text
  unreadable : Option Text

def unread (reason : Text) : Page arithmetic := ⟨[],none,[],some reason⟩

variable {arithmetic}

def pageOf (out : List (Kept arithmetic)) (more : Bool) : Page arithmetic :=
  ⟨out.map Kept.entry,if more then out.getLast?.map fun last => posOf last.file last.line else none,
    out.map fun kept => posOf kept.file kept.line,none⟩

def newestFirst (names : List String) : List String := (sortTexts (names.filter isMonthFile)).reverse

/-- The page of all entries above `bound`, or of all there are. -/
def pageUnder (listing : Listing) (limit : Option Rat) (bound : Option Cursor) : Page arithmetic :=
  match listing.names with
  | .error code => unread arithmetic ("the audit directory cannot be read (".toList ++ code.toList ++ [')'])
  | .ok names =>
    let read := readFiles listing bound (capOf limit) (newestFirst names) []
    pageOf read.1 read.2

def readConsoleAudit (listing : Listing) (limit : Option Rat) (before : Option Text) : Page arithmetic :=
  match before with
  | none => pageUnder listing limit none
  | some before => match cursorOf before with
    | none => unread arithmetic "the cursor is not an audit position (YYYY-MM:line)".toList
    | some bound => pageUnder listing limit (some bound)

/-- A reader that follows each page's `next`, for so many calls at most; call `k` finds the files as `listings k`. -/
def follow (listings : Nat → Listing) (limits : Nat → Option Rat) : Nat → Option Text → List (Page arithmetic)
  | 0,_ => []
  | calls + 1,before =>
    let page := readConsoleAudit (listings 0) (limits 0) before
    page :: match page.next with
      | none => []
      | some next => follow (fun k => listings (k + 1)) (fun k => limits (k + 1)) calls (some next)

/-- A file's entries in the order of its lines. -/
def entriesIn (listing : Listing) (file : String) : List (Kept arithmetic) :=
  let lines := fileLines (listing.file file)
  lines.mapIdx (fun i line => ⟨entryOf file (i + 1) line,file,i + 1⟩) ++
    match (listing.file file).fault with
    | some code => [⟨.unread file code,file,lines.length + 1⟩]
    | none => []

/-- Every entry of every file: the newest file first, and each from its end. -/
def history (listing : Listing) (names : List String) : List (Kept arithmetic) :=
  (newestFirst names).flatMap fun file => (entriesIn listing file).reverse

/-- The same files, but for what was written at the end of the newest. -/
structure Grown (names : List String) (before after : Listing) : Prop where
  listed : after.names = .ok names
  older : ∀ file ∈ newestFirst names, (newestFirst names).head? ≠ some file →
    (after.file file).chunks.flatten = (before.file file).chunks.flatten ∧ (after.file file).fault = (before.file file).fault
  newest : ∀ file, (newestFirst names).head? = some file →
    (after.file file).fault = (before.file file).fault ∧
      ((after.file file).chunks.flatten = (before.file file).chunks.flatten ∨
        (before.file file).fault = none ∧
          ∃ more, (after.file file).chunks.flatten = (before.file file).chunks.flatten ++ more)

end PiDispatch.ConsoleAudit
