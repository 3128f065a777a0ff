import PiDispatch.Kernel.Dict
import PiDispatch.Kernel.JsonText
import PiDispatch.Kernel.Lines
import PiDispatch.Kernel.TextOrder
import PiDispatch.Kernel.Utf8
import PiDispatch.Clock

/-! The console's audit log: rows in month files, each with the digest of the line before it; the append, the walk that
verifies the chain, and the reaper. The digest of a line is a parameter, and so is what the language's numbers do. -/
namespace PiDispatch.ConsoleAudit
open Kernel JsonText

/-- Where counting ends: one more is the same number again. -/
def counted : Nat := Kernel.maxSafeInteger + 1

/-- One more, as the language counts. -/
def oneMore (number : Nat) : Nat := min (number + 1) counted

/-- The language's numbers as far as rows use them. -/
structure Arithmetic extends Numbers where
  isInteger : Value → Bool
  atLeastOne : Value → Bool
  next : Value → Value
  same : Value → Value → Bool
  text : Value → Text
  read_counted : read (decimal counted) = ofNat counted
  write_counted : write (ofNat counted) = decimal counted
  isInteger_ofNat : ∀ number ≤ counted, isInteger (ofNat number) = true
  atLeastOne_ofNat : ∀ number ≤ counted, atLeastOne (ofNat number) = decide (1 ≤ number)
  next_ofNat : ∀ number ≤ counted, next (ofNat number) = ofNat (oneMore number)
  same_ofNat : ∀ number ≤ counted, same (ofNat number) (ofNat number) = true

section Vocabulary

def word (text : String) : Units := Utf16.ofText text.toList

def CONSOLE_AUDIT_ACTIONS : List String :=
  ["login","login-failed","login-code","logout","refused","write","write-applied","token-added","token-revoked",
    "token-rotated","sessions-ended","serve-started"]

def CONSOLE_AUDIT_OUTCOMES : List String := ["ok","refused","failed"]
def CONSOLE_AUDIT_FIELD_MAX : Nat := 200
def TAIL_BYTES : Nat := 65536
def WATCH_AUDIT_KINDS : List String := ["sandbox-watch-opening","sandbox-watch-start","sandbox-watch-end"]

def isLower (unit : UInt16) : Bool := 97 ≤ unit.toNat && unit.toNat ≤ 122
def isDigit (unit : UInt16) : Bool := 48 ≤ unit.toNat && unit.toNat ≤ 57
def isHex (unit : UInt16) : Bool := isDigit unit || (97 ≤ unit.toNat && unit.toNat ≤ 102)
def isDash (unit : UInt16) : Bool := unit.toNat = 45

/-- `CONSOLE_AUDIT_ACTION_RE` and `CONSOLE_AUDIT_OUTCOME_RE`. -/
def isShapedWord : Units → Bool
  | [] => false
  | first :: rest =>
    isLower first && rest.length ≤ 39 && rest.all fun unit => isLower unit || isDigit unit || isDash unit

/-- `CONSOLE_AUDIT_KIND_RE`. -/
def isKind (text : Units) : Bool :=
  1 ≤ text.length && text.length ≤ 40 && text.all fun unit => isLower unit || isDigit unit || isDash unit

def isDriverName : Units → Bool
  | [] => false
  | first :: rest =>
    (isLower first || isDigit first) && rest.length ≤ 31 &&
      rest.all fun unit => isLower unit || isDigit unit || isDash unit || unit.toNat = 46 || unit.toNat = 95

def isSession (text : Units) : Bool := text.length = 12 && text.all isHex

def isDigest (text : Units) : Bool := text.length = 64 && text.all isHex

/-- `ESCAPED`: the code points that are written out, in ranges. -/
def ESCAPED : List (Nat × Nat) :=
  [(0x0,0x20),(0x7f,0xa0),(0xad,0xad),(0x600,0x605),(0x61c,0x61c),(0x6dd,0x6dd),(0x70f,0x70f),(0x890,0x891),(0x8e2,0x8e2),
    (0x115f,0x1160),(0x1680,0x1680),(0x180e,0x180e),(0x2000,0x200b),(0x200e,0x200f),(0x2028,0x202f),(0x205f,0x206f),
    (0x2800,0x2800),(0x3164,0x3164),(0xfeff,0xfeff),(0xffa0,0xffa0),(0xfff0,0xfffb),(0x110bd,0x110bd),(0x110cd,0x110cd),
    (0x13430,0x1343f),(0x1bca0,0x1bca3),(0x1d173,0x1d17a),(0xe0000,0xe00ff),(0xe01f0,0xe0fff)]

def isEscaped (letter : Char) : Bool :=
  letter ≠ ' ' && ESCAPED.any fun range => range.1 ≤ letter.toNat && letter.toNat ≤ range.2

def escapedPoint : Utf16.Point → Units
  | .lone unit => [unit]
  | .scalar letter =>
    if isEscaped letter then
      let digits := (Nat.toDigits 16 letter.toNat).map Char.toUpper
      Utf16.ofText ("\\u\x7b".toList ++ List.replicate (4 - digits.length) '0' ++ digits ++ ['\x7d'])
    else Utf16.unitsOf letter

def escapeControls (text : Units) : Units := (Utf16.points text).flatMap escapedPoint

def auditString (value : Units) : Units :=
  ((Utf16.points (escapeControls value)).take CONSOLE_AUDIT_FIELD_MAX).flatMap Utf16.Point.units

end Vocabulary

section Rows
variable (arithmetic : Arithmetic)

abbrev Document := JsonValue arithmetic.Value

structure Actor where
  name : Units
  role : Units
  session : Option Units

structure Driver where
  name : Units
  role : Units
  session : Units

/-- What a caller hands to the append; what is absent is none. -/
structure Input where
  actor : Actor
  action : Units
  outcome : Units
  kind : Option Units
  target : Option Units
  reason : Option Units
  reserve : Option Int
  count : Option Int
  beforeDigest : Option Units
  afterDigest : Option Units
  ticket : Option Units
  driver : Option Driver

variable {arithmetic}

/-- `String(value)` of what was parsed; none where it throws. -/
def coerced : Document arithmetic → Option Units
  | .null => some (word "null")
  | .bool true => some (word "true")
  | .bool false => some (word "false")
  | .number value => some (Utf16.ofText (arithmetic.text value))
  | .string text => some text
  | .array items => joined items
  | .object members =>
    if members.any fun member => member.1 = word "toString" then none else some (word "[object Object]")
where
  joined : List (Document arithmetic) → Option Units
    | [] => some []
    | [item] => piece item
    | item :: items => (piece item).bind fun first => (joined items).map fun rest => first ++ word "," ++ rest
  piece : Document arithmetic → Option Units
    | .null => some []
    | item => coerced item

/-- A text where a pattern is tried on a value that may be absent. -/
def tried (value : Option (Document arithmetic)) : Option Units :=
  match value with
  | none | some .null => some []
  | some value => coerced value

def sortUnits (keys : List Units) : List Units :=
  keys.insertionSort fun left right => unitsNotAfter (left.map UInt16.toNat) (right.map UInt16.toNat)

/-- The members of a driver; none where the value is no driver, and thrown where a member cannot be made a text. -/
def consoleAuditDriver (value : Document arithmetic) : Except Unit (Option (List (Units × Document arithmetic))) :=
  match value with
  | .object members =>
    if List.intercalate (word ",") (sortUnits (members.map Prod.fst)) ≠ word "name,role,session" then .ok none
    else match tried (value.field? (word "name")) with
      | none => .error ()
      | some name =>
        if ¬isDriverName name then .ok none
        else match value.field? (word "role") with
          | some (.string role) =>
            if role ≠ word "operator" then .ok none
            else match tried (value.field? (word "session")) with
              | none => .error ()
              | some session =>
                if ¬isSession session then .ok none
                else .ok (some [(word "name",(value.field? (word "name")).getD .null),(word "role",.string role),
                  (word "session",(value.field? (word "session")).getD .null)])
          | _ => .ok none
  | _ => .ok none

def Driver.document (driver : Driver) : Document arithmetic :=
  .object [(word "name",.string driver.name),(word "role",.string driver.role),(word "session",.string driver.session)]

def isListed (words : List String) (text : Units) : Bool := words.any fun own => word own = text

def listed (words : List String) : Text := (", ".intercalate words).toList

def optional (name : String) (value : Option Units) : List (Units × Document arithmetic) :=
  (value.map fun text => (word name,.string (auditString text))).toList

def number (name : String) (value : Option Int) : List (Units × Document arithmetic) :=
  (value.map fun own => (word name,.number (arithmetic.ofNat own.toNat))).toList

def sessionOf : Option Units → Document arithmetic
  | none => .null
  | some session => .string (auditString session)

/-- A row's members in reading order, after its place in the chain. -/
def storedBody (input : Input) (driver : Option (List (Units × Document arithmetic))) : List (Units × Document arithmetic) :=
  (word "actor",.object [(word "name",.string (auditString input.actor.name)),
    (word "role",.string (auditString input.actor.role)),
    (word "session",sessionOf input.actor.session)]) ::
  (word "action",.string input.action) ::
  ((input.kind.map fun kind => (word "kind",.string kind)).toList ++ (optional "target" input.target ++
    (word "outcome",.string input.outcome) :: (optional "reason" input.reason ++ (number "reserve" input.reserve ++
      (number "count" input.count ++ (optional "beforeDigest" input.beforeDigest ++
        (optional "afterDigest" input.afterDigest ++ (optional "ticket" input.ticket ++
          (driver.map fun members => (word "driver",.object members)).toList))))))))

def driverOf (input : Input) : Option (List (Units × Document arithmetic)) :=
  input.driver.bind fun driver => match consoleAuditDriver driver.document with
    | .ok found => found
    | .error _ => none

/-- A driver is on a watch row and on no other. -/
def misplaced (input : Input) (driver : Option (List (Units × Document arithmetic))) : Bool :=
  if input.kind.any (isListed WATCH_AUDIT_KINDS) then driver.isNone else input.driver.isSome

/-- The row as it is stored, or what is thrown, naming the field. -/
def auditRowBody (input : Input) : Except Text (List (Units × Document arithmetic)) :=
  let driver := @driverOf arithmetic input
  if ¬isListed CONSOLE_AUDIT_ACTIONS input.action then
    .error ("console audit row: unknown action ".toList ++ quoted (escapeControls input.action) ++ " (one of ".toList ++
      listed CONSOLE_AUDIT_ACTIONS ++ [')'])
  else if ¬isListed CONSOLE_AUDIT_OUTCOMES input.outcome then
    .error ("console audit row: unknown outcome ".toList ++ quoted (escapeControls input.outcome) ++ " (one of ".toList ++
      listed CONSOLE_AUDIT_OUTCOMES ++ [')'])
  else if ¬input.kind.all isKind then .error "console audit row: kind must be 1 to 40 of a-z, 0-9 and -".toList
  else if ¬input.reserve.all fun own => 0 ≤ own ∧ own ≤ (Kernel.maxSafeInteger : Int) then
    .error "console audit row: reserve must be a non-negative whole number of micro-dollars".toList
  else if ¬input.count.all fun own => 1 ≤ own ∧ own ≤ (Kernel.maxSafeInteger : Int) then
    .error "console audit row: count must be a positive whole number".toList
  else if misplaced input driver then
    .error "console audit row: driver is required only on watch attachment rows".toList
  else .ok (storedBody input driver)

end Rows

section Files

/-- A file's bytes, and the clock at its last write. -/
structure AuditFile where
  bytes : List UInt8
  mtime : Int
  deriving DecidableEq

/-- The audit directory: its files by name, in no order that is relied on. -/
abbrev Directory := Dict String AuditFile

/-- `MONTH_FILE_RE`. -/
def isMonthFile (name : String) : Bool :=
  match name.toList with
  | [a,b,c,d,'-',e,f,'.','j','s','o','n','l'] => [a,b,c,d,e,f].all Char.isDigit
  | _ => false

def monthFiles (dir : Directory) : List String := sortTexts (dir.keys.filter isMonthFile)

def contentOf (dir : Directory) (name : String) : List UInt8 := ((dir.get? name).map AuditFile.bytes).getD []

/-- The last line of a file that is not empty, read from the file's end. -/
def lastLine (path : String) (bytes : List UInt8) : Except Text (Option Text) :=
  let length := min bytes.length TAIL_BYTES
  let lines := (Lines.split '\n' (Utf8.decode (bytes.drop (bytes.length - length)))).filter fun line => line ≠ []
  if lines = [] then .ok none
  else if lines.length = 1 ∧ length < bytes.length then
    .error (("the console audit file " ++ path ++ " ends in a line longer than 65536 bytes; run \x60pi-dispatch-console " ++
      "audit verify\x60").toList)
  else .ok lines.getLast?

variable (arithmetic : Arithmetic) (sha256 : Text → Text)

structure Head where
  seq : arithmetic.Value
  hash : Option Text
  month : Option String

/-- A row's number, where a line is a row that has one. -/
def seqOf (row : Option (Document arithmetic)) : Option arithmetic.Value :=
  match row.bind fun row => row.field? (word "seq") with
  | some (.number seq) => if arithmetic.isInteger seq && arithmetic.atLeastOne seq then some seq else none
  | _ => none

/-- The newest file first, the ones that are empty skipped. -/
def headOf (dir : Directory) : List String → Except Text (Head arithmetic)
  | [] => .ok ⟨arithmetic.ofNat 0,none,none⟩
  | file :: files => match lastLine file (contentOf dir file) with
    | .error thrown => .error thrown
    | .ok none => headOf dir files
    | .ok (some line) => match seqOf arithmetic (parse arithmetic.toNumbers line) with
      | none => .error (("the last line of the console audit file " ++ file ++ " is not an audit row, so the next row " ++
          "cannot link to it; run \x60pi-dispatch-console audit verify\x60 and move the damaged file aside").toList)
      | some seq => .ok ⟨seq,some (sha256 line),some (Clock.slice 7 file.toList)⟩

def readHead (dir : Directory) : Except Text (Head arithmetic) := headOf arithmetic sha256 dir (monthFiles dir).reverse

def prevOf : Option Text → Document arithmetic
  | none => .null
  | some hash => .string (Utf16.ofText hash)

def rowOf (at' : Text) (head : Head arithmetic) (body : List (Units × Document arithmetic)) : Document arithmetic :=
  .object ((word "at",.string (Utf16.ofText at')) :: (word "seq",.number (arithmetic.next head.seq)) ::
    (word "prev",prevOf arithmetic head.hash) :: body)

/-- The file an append writes to, and the line it writes there, but for the line's end. -/
def appended (dir : Directory) (input : Input) (now : Int) : Except Text (String × Text) :=
  match @auditRowBody arithmetic input with
  | .error thrown => .error thrown
  | .ok body => match readHead arithmetic sha256 dir with
    | .error thrown => .error thrown
    | .ok head => match Clock.isoInstant now with
      | none => .error "Invalid time value".toList
      | some at' =>
        let month := Clock.slice 7 at'
        let month := match head.month with
          | none => month
          | some newest => if notAfter newest month then month else newest
        .ok (month ++ ".jsonl",stringify arithmetic.toNumbers (rowOf arithmetic at' head body))

def appendFile (dir : Directory) (name : String) (bytes : List UInt8) (now : Int) : Directory :=
  dir.set name ⟨contentOf dir name ++ bytes,now⟩

/-- `append`: the row is on disk with its line's end, or nothing is. -/
def append (dir : Directory) (input : Input) (now : Int) : Except Text Directory :=
  (appended arithmetic sha256 dir input now).map fun row =>
    appendFile dir row.1 (Octets.utf8 row.2 ++ [Utf8.newline]) now

/-- A reaper's run: files whose last write is older than the retention go, the newest never. -/
def reapConsoleAudit (dir : Directory) (retentionDays : Nat) (now : Int) : Directory :=
  if retentionDays = 0 then dir
  else (monthFiles dir).dropLast.foldl (fun dir name =>
    if (dir.get? name).any fun file => file.mtime < now - retentionDays * 86400000 then dir.erase name else dir) dir

end Files

section Verification
variable (arithmetic : Arithmetic) (sha256 : Text → Text)

/-- A file as a walk meets it: the chunks that are read, and what stops the reading, if anything does. -/
structure FileRead where
  chunks : List (List UInt8)
  fault : Option String

/-- A directory as a walk meets it: its names, or why they cannot be read, and its files. -/
structure Listing where
  names : Except String (List String)
  file : String → FileRead

/-- `fileLines`: what the last line's end leaves over is a line, unless the reading stopped there. -/
def fileLines (file : FileRead) : List Text :=
  let read := Lines.cutChunks Utf8.newline [] file.chunks
  (read.1 ++ if file.fault.isNone ∧ read.2 ≠ [] then [read.2] else []).map Utf8.decode

/-- A row's place; `line` counts from one. -/
structure Place where
  file : String
  line : Nat
  seq : arithmetic.Value

structure Prior where
  seq : arithmetic.Value
  hash : Text

structure Indexed where
  file : String
  seq : arithmetic.Value
  rows : Nat

/-- What a walk knows of the rows that it has passed. -/
structure Walk where
  rows : Nat
  prior : Option (Prior arithmetic)
  startsAt : Option (String × arithmetic.Value)
  last : Option (Place arithmetic)
  beforeLast : Option (Place arithmetic)
  index : List (Indexed arithmetic)
  unknown : Nat

def Walk.start : Walk arithmetic := ⟨0,none,none,none,none,[],0⟩

/-- Why a walk ends: where, the reason, and whether the line there does not vouch for the row before it. -/
structure Stop where
  file : Option String
  line : Nat
  reason : Text
  unlinked : Bool

variable {arithmetic}

/-- Whether a line shows the digest of the row before it. -/
def isLinked (prior : Option (Prior arithmetic)) (row : Option (Document arithmetic)) : Bool :=
  prior.any fun prior => match row.bind fun row => row.field? (word "prev") with
    | some (.string prev) => prev = Utf16.ofText prior.hash
    | _ => false

def isPrev (row : Document arithmetic) : Bool :=
  match row.field? (word "prev") with
  | some .null => true
  | some (.string prev) => isDigest prev
  | _ => false

def textAt (row : Document arithmetic) (name : String) : Option Units :=
  match row.field? (word name) with
  | some (.string text) => some text
  | _ => none

def isObject : Document arithmetic → Bool
  | .object _ => true
  | _ => false

def optionalFieldsWellFormed (row : Document arithmetic) : Bool :=
  (match row.field? (word "kind") with
    | none => true
    | some (.string kind) => isKind kind
    | some _ => false) &&
  (match row.field? (word "reserve") with
    | none => true
    | some (.number own) => (arithmetic.safe? own).any fun own => 0 ≤ own
    | some _ => false) &&
  match row.field? (word "count") with
    | none => true
    | some (.number own) => (arithmetic.safe? own).any fun own => 1 ≤ own
    | some _ => false

def isKnown (row : Document arithmetic) : Bool :=
  (textAt row "action").any (isListed CONSOLE_AUDIT_ACTIONS) && (textAt row "outcome").any (isListed CONSOLE_AUDIT_OUTCOMES)

/-- Whether a row's driver is one the console writes; thrown where a member of it cannot be made a text. -/
def driverAllowed (row : Document arithmetic) : Except Unit Bool :=
  if (textAt row "kind").any (isListed WATCH_AUDIT_KINDS) then
    match row.field? (word "driver") with
    | none => .ok false
    | some driver => (consoleAuditDriver driver).map Option.isSome
  else .ok (row.field? (word "driver")).isNone

/-- A row that passes every check: its number, whether the release knows its words, and whether the chain starts there. -/
structure Passed (arithmetic : Arithmetic) where
  seq : arithmetic.Value
  known : Bool
  starts : Bool

/-- Why a line does not pass, and whether it does not vouch for the row before it. -/
structure Refused where
  reason : Text
  unlinked : Bool

/-- One line after the row before it, its checks in their order. -/
def judge (prior : Option (Prior arithmetic)) (text : Text) : Except Refused (Passed arithmetic) :=
  let parsed := parse arithmetic.toNumbers text
  let linked := isLinked prior parsed
  let broken := fun (reason : Text) => Except.error (Refused.mk reason !linked)
  match parsed with
  | none => broken "the line is not a JSON row (damaged, or written by something else)".toList
  | some row => match seqOf arithmetic (some row) with
    | none => broken "the row has no valid seq and prev".toList
    | some seq =>
      if ¬isObject row ∨ ¬isPrev row then broken "the row has no valid seq and prev".toList
      else if ¬isKnown row ∧ ¬((textAt row "action").any isShapedWord ∧ (textAt row "outcome").any isShapedWord) then
        broken "the row's action or outcome is not of the shape the console writes".toList
      else match driverAllowed row with
        | .error _ => .error ⟨"the file cannot be read (error)".toList,false⟩
        | .ok allowed =>
          if ¬allowed then broken "the row's watch driver is not one the console writes".toList
          else if ¬optionalFieldsWellFormed row then
            broken "the row's kind, reserve or count is not one the console writes".toList
          else match prior with
            | none =>
              if (textAt row "prev").isSome then .ok ⟨seq,isKnown row,true⟩
              else if arithmetic.same seq (arithmetic.ofNat 1) then .ok ⟨seq,isKnown row,false⟩
              else broken ("the first row has no prev but seq ".toList ++ arithmetic.text seq ++
                "; the chain's start was changed".toList)
            | some prior =>
              if ¬linked then
                broken ("prev does not match the row before it (seq ".toList ++ arithmetic.text prior.seq ++
                  "): a row was changed, removed or moved".toList)
              else if ¬arithmetic.same seq (arithmetic.next prior.seq) then
                broken ("seq ".toList ++ arithmetic.text seq ++ " follows seq ".toList ++ arithmetic.text prior.seq)
              else .ok ⟨seq,isKnown row,false⟩

def Walk.pass (walk : Walk arithmetic) (file : String) (line : Nat) (hash : Text) (passed : Passed arithmetic) :
    Walk arithmetic where
  rows := walk.rows + 1
  prior := some ⟨passed.seq,hash⟩
  startsAt := if passed.starts then some (file,passed.seq) else walk.startsAt
  last := some ⟨file,line,passed.seq⟩
  beforeLast := walk.last
  index := match walk.index.getLast? with
    | some newest =>
      if newest.file = file then walk.index.dropLast ++ [{ newest with rows := newest.rows + 1 }]
      else walk.index ++ [⟨file,passed.seq,1⟩]
    | none => [⟨file,passed.seq,1⟩]
  unknown := if passed.known then walk.unknown else walk.unknown + 1

/-- The lines of a file, after the ones that were read. -/
def walkLines (file : String) : Walk arithmetic → Nat → List Text → Walk arithmetic × Option Stop
  | walk,_,[] => (walk,none)
  | walk,read,line :: lines => match judge walk.prior line with
    | .error refused => (walk,some ⟨some file,read + 1,refused.reason,refused.unlinked⟩)
    | .ok passed => walkLines file (walk.pass file (read + 1) (sha256 line) passed) (read + 1) lines

def walkFiles (listing : Listing) : Walk arithmetic → List String → Walk arithmetic × Option Stop
  | walk,[] => (walk,none)
  | walk,file :: files =>
    let lines := fileLines (listing.file file)
    match walkLines sha256 file walk 0 lines with
    | (walk,some stop) => (walk,some stop)
    | (walk,none) => match (listing.file file).fault with
      | some code =>
        (walk,some ⟨some file,lines.length,"the file cannot be read (".toList ++ code.toList ++ [')'],false⟩)
      | none => walkFiles listing walk files

variable (arithmetic)

/-- What `withLast` adds: the last row that the chain vouches for, the row before a break that it cannot vouch for, and the
rows of each file. -/
structure Vouched where
  last : Option (Place arithmetic)
  suspect : Option (Place arithmetic)
  files : List (Indexed arithmetic)

inductive Report
  | intact (rows : Nat) (startsAt : Option (String × arithmetic.Value)) (unknown : Option Nat)
  | broken (rows : Nat) (file : Option String) (line : Nat) (reason : Text)

variable {arithmetic}

def vouched (walk : Walk arithmetic) (unlinked : Bool) : Vouched arithmetic :=
  if unlinked then ⟨walk.beforeLast,walk.last,walk.index⟩ else ⟨walk.last,none,walk.index⟩

/-- Oldest file first, to the first broken link. -/
def verifyConsoleAudit (listing : Listing) (withLast : Bool) : Report arithmetic × Option (Vouched arithmetic) :=
  let added := fun walk unlinked => if withLast then some (vouched walk unlinked) else none
  match listing.names with
  | .error code => (.broken 0 none 0 ("the audit directory cannot be read (".toList ++ code.toList ++ [')']),
      added (.start arithmetic) false)
  | .ok names => match walkFiles sha256 listing (.start arithmetic) (sortTexts (names.filter isMonthFile)) with
    | (walk,none) => (.intact walk.rows walk.startsAt (if 0 < walk.unknown then some walk.unknown else none),
        added walk false)
    | (walk,some stop) => (.broken walk.rows stop.file stop.line stop.reason,added walk stop.unlinked)

/-- A directory whose files are all read, each in one chunk. -/
def Directory.listing (dir : Directory) : Listing where
  names := .ok dir.keys
  file name := ⟨[contentOf dir name],none⟩

end Verification

end PiDispatch.ConsoleAudit
