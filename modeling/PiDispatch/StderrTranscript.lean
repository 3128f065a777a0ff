import Mathlib

/-! The stderr of a copying venue, split as it arrives into the runner's signed transcript records and everything else,
which is passed on. The HMAC is a parameter. -/
namespace PiDispatch.StderrTranscript

abbrev Bytes := List UInt8

def newline : UInt8 := 0x0a

def space : UInt8 := 0x20

def equals : UInt8 := 0x3d

/-- `\x1epidt `. -/
def MARKER : Bytes := [0x1e,0x70,0x69,0x64,0x74,0x20]

def RS : UInt8 := 0x1e

def TRANSCRIPT_RECORD_MAX_BYTES : Nat := 8 * 1024 * 1024

def isDigit (c : UInt8) : Bool := 0x30 ≤ c && c ≤ 0x39

def isHex (c : UInt8) : Bool := isDigit c || (0x61 ≤ c && c ≤ 0x66)

def isB64 (c : UInt8) : Bool :=
  isDigit c || (0x41 ≤ c && c ≤ 0x5a) || (0x61 ≤ c && c ≤ 0x7a) || c == 0x2b || c == 0x2f || c == 0x3d

def isType (c : UInt8) : Bool := c == 0x62 || c == 0x6c || c == 0x72

/-! Base64, as far as a record's payload is of it. -/

def sextet (c : UInt8) : Nat :=
  if 0x41 ≤ c ∧ c ≤ 0x5a then c.toNat - 0x41
  else if 0x61 ≤ c ∧ c ≤ 0x7a then c.toNat - 0x61 + 26
  else if 0x30 ≤ c ∧ c ≤ 0x39 then c.toNat - 0x30 + 52
  else if c = 0x2b then 62 else 63

def digit64 (value : Nat) : UInt8 :=
  if value < 26 then UInt8.ofNat (value + 0x41)
  else if value < 52 then UInt8.ofNat (value - 26 + 0x61)
  else if value < 62 then UInt8.ofNat (value - 52 + 0x30)
  else if value = 62 then 0x2b else 0x2f

def isSextet (c : UInt8) : Bool := isB64 c && c != equals

/-- `B64_RE`. -/
def isBase64 : Bytes → Bool
  | [] => true
  | [a,b,c,d] => isSextet a && isSextet b && (isSextet c && (isSextet d || d == equals) || c == equals && d == equals)
  | a :: b :: c :: d :: rest => isSextet a && isSextet b && isSextet c && isSextet d && isBase64 rest
  | _ => false

def fromBase64 : Bytes → Bytes
  | a :: b :: c :: d :: rest =>
    let first := UInt8.ofNat (sextet a * 4 + sextet b / 16)
    let second := UInt8.ofNat (sextet b % 16 * 16 + sextet c / 4)
    let third := UInt8.ofNat (sextet c % 4 * 64 + sextet d)
    if c = equals then [first] else if d = equals then [first,second] else first :: second :: third :: fromBase64 rest
  | _ => []

def toBase64 : Bytes → Bytes
  | x :: y :: z :: rest => digit64 (x.toNat / 4) :: digit64 (x.toNat % 4 * 16 + y.toNat / 16) ::
      digit64 (y.toNat % 16 * 4 + z.toNat / 64) :: digit64 (z.toNat % 64) :: toBase64 rest
  | [x,y] => [digit64 (x.toNat / 4),digit64 (x.toNat % 4 * 16 + y.toNat / 16),digit64 (y.toNat % 16 * 4),equals]
  | [x] => [digit64 (x.toNat / 4),digit64 (x.toNat % 4 * 16),equals,equals]
  | [] => []

/-! A record's body. -/

inductive RecordType
  | b
  | l
  | r
  deriving DecidableEq

structure Verified where
  seq : Nat
  type : RecordType
  last : Nat
  payload : Bytes

/-- `NUM_RE`, and the number where it is a safe integer. -/
def number? (text : Bytes) : Option Nat :=
  let value := text.foldl (fun value c => value * 10 + (c.toNat - 0x30)) 0
  if text.all isDigit = true ∧ 0 < text.length ∧ text.length ≤ 16 ∧ (text.head? = some 0x30 → text.length = 1) ∧
      value < 2 ^ 53 then some value
  else none

def type? (text : Bytes) : Option RecordType :=
  if text = [0x62] then some .b else if text = [0x6c] then some .l else if text = [0x72] then some .r else none

def splitOn (byte : UInt8) : Bytes → List Bytes
  | [] => [[]]
  | c :: rest => match splitOn byte rest with
    | part :: parts => if c = byte then [] :: part :: parts else (c :: part) :: parts
    | [] => [[c]]

/-- `transcriptRecordMac` with the attempt's key and run id in it: the hex of a record's fields and payload. -/
abbrev Mac := Bytes → Bytes → Bytes → Bytes → Bytes

def verifyTranscriptRecord (mac : Mac) (body : Bytes) : Option Verified :=
  match splitOn space body with
  | [seqText,type,endText,macText,b64] => do
    let seq ← number? seqText
    let kind ← type? type
    let last ← number? endText
    let payload := fromBase64 b64
    if seq ≠ 0 ∧ macText.all isHex = true ∧ macText.length = 64 ∧ isBase64 b64 = true ∧ toBase64 payload = b64 ∧
        (kind = .l ∨ payload = []) ∧ mac seqText type endText payload = macText then some ⟨seq,kind,last,payload⟩
    else none
  | _ => none

/-- Each field before the payload: the bytes it admits and its longest length. -/
structure Field where
  ok : UInt8 → Bool
  max : Nat

def FIELDS : List Field := [⟨isDigit,16⟩,⟨isType,1⟩,⟨isDigit,16⟩,⟨isHex,64⟩]

/-! The demux. -/

/-- The bytes so far that match the marker's head. -/
structure Probe where
  bytes : Bytes
  head : bytes <+: MARKER
  short : bytes.length < MARKER.length

def Probe.empty : Probe := ⟨[],List.nil_prefix,by decide⟩

inductive Mode
  | start (probe : Probe)
  | pass
  | record (field fieldLen : Nat) (parts : Bytes) (held : Nat) (discarding : Bool)

structure Counts where
  records : Nat
  unverified : Nat
  replayed : Nat
  gaps : Nat
  oversize : Nat
  deriving DecidableEq

/-- The callbacks that are called. -/
inductive Told
  | gap (missing : Nat)
  | baseline (size : Nat)
  | reset (size : Nat)
  | line (bytes : Bytes) (last : Nat)
  deriving DecidableEq

/-- The demux, with the callbacks it has called and the numbers of the records it has accepted. -/
structure Demux where
  mode : Mode
  last : Nat
  counts : Counts
  told : List Told
  taken : List Nat

def Demux.fresh : Demux := ⟨.start .empty,0,⟨0,0,0,0,0⟩,[],[]⟩

def Mode.opened : Mode := .record 0 0 [] 0 false

namespace Demux

/-- The record ended before its grammar did. -/
def breakRecord (demux : Demux) : Demux :=
  { demux with counts := { demux.counts with unverified := demux.counts.unverified + 1 } }

def oversized (demux : Demux) : Demux :=
  { demux with counts := { demux.counts with oversize := demux.counts.oversize + 1 } }

def callback (verified : Verified) : List Told :=
  match verified.type with
  | .b => [.baseline verified.last]
  | .r => [.reset verified.last]
  | .l => if verified.payload.length > 0 then [.line verified.payload verified.last] else []

section Settle
variable (mac : Mac) (maxRecordBytes : Nat)

def settle (demux : Demux) (body : Bytes) : Demux :=
  match verifyTranscriptRecord mac body with
  | none => demux.breakRecord
  | some verified =>
    if verified.seq ≤ demux.last then
      { demux with counts := { demux.counts with replayed := demux.counts.replayed + 1 } }
    else
      -- `seq` 1 is the baseline: when it is the one lost, no line is missing for it.
      let missing := verified.seq - demux.last - 1 - (if demux.last = 0 then 1 else 0)
      { demux with
        last := verified.seq
        counts := { demux.counts with records := demux.counts.records + 1, gaps := demux.counts.gaps + missing }
        told := demux.told ++ (if missing > 0 then [.gap missing] else []) ++ callback verified
        taken := demux.taken ++ [verified.seq] }

/-- One round of the scan of a chunk: the demux after it, what it passes on and what it leaves of the chunk. -/
def turn (demux : Demux) (buf : Bytes) : Demux × Bytes × Bytes :=
  match demux.mode with
  | .pass =>
    let line := buf.takeWhile fun c => c ≠ newline && c ≠ RS
    match buf.dropWhile fun c => c ≠ newline && c ≠ RS with
    | [] => (demux,line,[])
    | c :: rest =>
      if c = RS then ({ demux with mode := .start .empty },line,c :: rest)
      else ({ demux with mode := .start .empty },line ++ [c],rest)
  | .start probe =>
    let take := buf.take (MARKER.length - probe.bytes.length)
    let candidate := probe.bytes ++ take
    if head : candidate <+: MARKER then
      if short : candidate.length < MARKER.length then
        ({ demux with mode := .start ⟨candidate,head,short⟩ },[],buf.drop take.length)
      else ({ demux with mode := .opened },[],buf.drop take.length)
    else if probe.bytes.length > 0 then ({ demux with mode := .pass },probe.bytes,buf)
    else match buf with
      | c :: rest => if c = RS then ({ demux with mode := .pass },[c],rest) else ({ demux with mode := .pass },[],buf)
      | [] => (demux,[],[])
  | .record field fieldLen parts held discarding =>
    match FIELDS[field]? with
    | some spec => match buf with
      | [] => (demux,[],[])
      | c :: rest =>
        if c = space ∧ fieldLen > 0 ∧ (field ≠ 3 ∨ fieldLen = 64) then
          ({ demux with mode := .record (field + 1) 0 (parts ++ [c]) (held + 1) discarding },[],rest)
        else if spec.ok c = true ∧ fieldLen < spec.max then
          ({ demux with mode := .record field (fieldLen + 1) (parts ++ [c]) (held + 1) discarding },[],rest)
        else if c = newline then ({ demux.breakRecord with mode := .start .empty },[],rest)
        else ({ demux.breakRecord with mode := .pass },[],c :: rest)
    | none =>
      let run := buf.takeWhile isB64
      if run.length > 0 then
        if discarding = true ∨ held + run.length > maxRecordBytes then
          ({ demux with mode := .record field fieldLen [] 0 true },[],buf.drop run.length)
        else
          ({ demux with mode := .record field fieldLen (parts ++ run) (held + run.length) false },[],buf.drop run.length)
      else match buf with
        | [] => (demux,[],[])
        | c :: rest =>
          if c = newline then
            if discarding = true then ({ demux.oversized with mode := .start .empty },[],rest)
            else ({ demux.settle mac parts with mode := .start .empty },[],rest)
          else if discarding = true then ({ demux.oversized with mode := .pass },[],c :: rest)
          else ({ demux.breakRecord with mode := .pass },[],c :: rest)

/-- How many rounds may follow before a byte is taken. -/
def rank (demux : Demux) (buf : Bytes) : Nat :=
  match demux.mode with
  | .record .. => 4
  | .start probe => if probe.bytes.length > 0 then 3 else if buf.head? = some RS then 1 else 2
  | .pass => if buf.head? = some RS then 2 else 1

private theorem rank_least (demux : Demux) (buf : Bytes) : 1 ≤ demux.rank buf ∧ demux.rank buf ≤ 4 := by
  unfold rank
  split
  · omega
  · split
    · omega
    · split <;> omega
  · split <;> omega

omit mac maxRecordBytes in
theorem other_head {buf rest : Bytes} {c : UInt8}
    (left : buf.dropWhile (fun c => c ≠ newline && c ≠ RS) = c :: rest) : c = newline ∨ c = RS := by
  have stops := List.head?_dropWhile_not (fun c => c ≠ newline && c ≠ RS) buf
  rw [left] at stops
  simp at stops
  by_cases line : c = newline
  · exact .inl line
  · exact .inr (stops line)

omit mac maxRecordBytes in
private theorem taken_shrinks {demux next : Demux} {buf rest : Bytes} (shorter : rest.length < buf.length) :
    5 * rest.length + next.rank rest < 5 * buf.length + demux.rank buf := by
  have most := (rank_least next rest).2
  have least := (rank_least demux buf).1
  omega

omit mac maxRecordBytes in
private theorem pass_rank (demux : Demux) (buf : Bytes) : rank { demux with mode := .pass } buf ≤ 2 := by
  unfold rank
  dsimp only
  split <;> omega

/-- Every round takes a byte, or comes nearer to taking one. -/
theorem turn_shrinks (demux : Demux) (buf : Bytes) (more : buf ≠ []) :
    5 * (demux.turn mac maxRecordBytes buf).2.2.length + (demux.turn mac maxRecordBytes buf).1.rank (demux.turn mac maxRecordBytes buf).2.2 <
      5 * buf.length + demux.rank buf := by
  obtain ⟨mode,last,counts,told,taken⟩ := demux
  have some' : 0 < buf.length := List.length_pos_iff.mpr more
  cases mode with
  | pass =>
    unfold turn
    dsimp only
    have whole := List.takeWhile_append_dropWhile (p := fun c => c ≠ newline && c ≠ RS) (l := buf)
    have parts := congrArg List.length whole
    rw [List.length_append] at parts
    split
    · exact taken_shrinks some'
    next c rest left =>
      rw [left,List.length_cons] at parts
      split
      next marker =>
        cases line : buf.takeWhile fun c => c ≠ newline && c ≠ RS with
        | nil =>
          rw [line,left,List.nil_append] at whole
          rw [← whole]
          simp [rank,Probe.empty,marker]
        | cons first others =>
          rw [line,List.length_cons] at parts
          refine taken_shrinks ?_
          rw [List.length_cons]
          omega
      · exact taken_shrinks (by dsimp only; omega)
  | start probe =>
    have short := probe.short
    have cut : (buf.take (MARKER.length - probe.bytes.length)).length = min (MARKER.length - probe.bytes.length) buf.length :=
      List.length_take
    unfold turn
    dsimp only
    split
    · split
      · exact taken_shrinks (by rw [List.length_drop]; omega)
      · exact taken_shrinks (by rw [List.length_drop]; omega)
    · split
      next held =>
        have before : rank ⟨.start probe,last,counts,told,taken⟩ buf = 3 := if_pos held
        have after := pass_rank ⟨.start probe,last,counts,told,taken⟩ buf
        dsimp only at after ⊢
        omega
      next none =>
        cases buf with
        | nil => exact absurd rfl more
        | cons c rest =>
          dsimp only
          split
          · exact taken_shrinks (by dsimp only; rw [List.length_cons]; omega)
          next other => simp [rank,none,other]
  | record field fieldLen parts held discarding =>
    have before : rank ⟨.record field fieldLen parts held discarding,last,counts,told,taken⟩ buf = 4 := rfl
    unfold turn
    dsimp only
    split
    next spec _ =>
      cases buf with
      | nil => exact absurd rfl more
      | cons c rest =>
        have shorter : rest.length < (c :: rest).length := by
          rw [List.length_cons]
          omega
        dsimp only
        split
        · exact taken_shrinks shorter
        · split
          · exact taken_shrinks shorter
          · split
            · exact taken_shrinks shorter
            · have after := pass_rank (breakRecord ⟨.pass,last,counts,told,taken⟩) (c :: rest)
              rw [before]
              unfold breakRecord at after ⊢
              dsimp only at after ⊢
              omega
    next =>
      split
      next run =>
        split
        · exact taken_shrinks (by rw [List.length_drop]; omega)
        · exact taken_shrinks (by rw [List.length_drop]; omega)
      next =>
        cases buf with
        | nil => exact absurd rfl more
        | cons c rest =>
          have shorter : rest.length < (c :: rest).length := by
            rw [List.length_cons]
            omega
          dsimp only
          split
          · split
            · exact taken_shrinks shorter
            · exact taken_shrinks shorter
          · split
            · have after := pass_rank (oversized ⟨.pass,last,counts,told,taken⟩) (c :: rest)
              rw [before]
              unfold oversized at after ⊢
              dsimp only at after ⊢
              omega
            · have after := pass_rank (breakRecord ⟨.pass,last,counts,told,taken⟩) (c :: rest)
              rw [before]
              unfold breakRecord at after ⊢
              dsimp only at after ⊢
              omega

/-- The rounds of a chunk. -/
def step (demux : Demux) (buf : Bytes) : Demux × Bytes :=
  if _more : buf = [] then (demux,[])
  else
    let round := demux.turn mac maxRecordBytes buf
    let later := step round.1 round.2.2
    (later.1,round.2.1 ++ later.2)
termination_by 5 * buf.length + demux.rank buf
decreasing_by exact turn_shrinks mac maxRecordBytes demux buf ‹_›

/-- What is still held and is no record, at the end. -/
def finish (demux : Demux) : Demux × Bytes :=
  let rest : Demux := { demux with mode := .start .empty }
  match demux.mode with
  | .start probe => (rest,probe.bytes)
  | .pass => (rest,[])
  | .record _ _ _ _ discarding =>
    if discarding = true then ({ demux.oversized with mode := .start .empty },[])
    else ({ demux.breakRecord with mode := .start .empty },[])

/-- The chunks of a stream and its end: the demux after them, and all that it has passed on. -/
def demuxed (demux : Demux) : List Bytes → Demux × Bytes
  | [] => demux.finish
  | chunk :: chunks =>
    let pushed := demux.step mac maxRecordBytes chunk
    let later := demuxed pushed.1 chunks
    (later.1,pushed.2 ++ later.2)

end Settle

end Demux

/-! The same, byte by byte. -/

namespace Demux
variable (mac : Mac) (maxRecordBytes : Nat)

/-- A byte of no record. -/
def passByte (demux : Demux) (c : UInt8) : Demux × Bytes :=
  if c = RS then ({ demux with mode := .start ⟨[RS],by decide,by decide⟩ },[])
  else if c = newline then ({ demux with mode := .start .empty },[c])
  else ({ demux with mode := .pass },[c])

def feed (demux : Demux) (c : UInt8) : Demux × Bytes :=
  match demux.mode with
  | .pass => demux.passByte c
  | .start probe =>
    if head : probe.bytes ++ [c] <+: MARKER then
      if short : (probe.bytes ++ [c]).length < MARKER.length then
        ({ demux with mode := .start ⟨probe.bytes ++ [c],head,short⟩ },[])
      else ({ demux with mode := .opened },[])
    else
      let passed := demux.passByte c
      (passed.1,probe.bytes ++ passed.2)
  | .record field fieldLen parts held discarding =>
    match FIELDS[field]? with
    | some spec =>
      if c = space ∧ fieldLen > 0 ∧ (field ≠ 3 ∨ fieldLen = 64) then
        ({ demux with mode := .record (field + 1) 0 (parts ++ [c]) (held + 1) discarding },[])
      else if spec.ok c = true ∧ fieldLen < spec.max then
        ({ demux with mode := .record field (fieldLen + 1) (parts ++ [c]) (held + 1) discarding },[])
      else if c = newline then ({ demux.breakRecord with mode := .start .empty },[])
      else demux.breakRecord.passByte c
    | none =>
      if isB64 c = true then
        if discarding = true ∨ held + 1 > maxRecordBytes then ({ demux with mode := .record field fieldLen [] 0 true },[])
        else ({ demux with mode := .record field fieldLen (parts ++ [c]) (held + 1) false },[])
      else if c = newline then
        if discarding = true then ({ demux.oversized with mode := .start .empty },[])
        else ({ demux.settle mac parts with mode := .start .empty },[])
      else if discarding = true then demux.oversized.passByte c
      else demux.breakRecord.passByte c

def feedAll (demux : Demux) : Bytes → Demux × Bytes
  | [] => (demux,[])
  | c :: rest =>
    let fed := demux.feed mac maxRecordBytes c
    let later := feedAll fed.1 rest
    (later.1,fed.2 ++ later.2)

end Demux

end PiDispatch.StderrTranscript
