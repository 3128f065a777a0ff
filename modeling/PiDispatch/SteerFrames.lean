import PiDispatch.Kernel.JsonText
import PiDispatch.Kernel.Stream
import PiDispatch.SteerInbox

/-! The stdin frame channel, both of its ends: the worker's encoder with the relay's own byte count, and the runner's
decoder. The digest and the framing of a message's text are taken as functions; numbers are the language's. -/
namespace PiDispatch.SteerFrames
open Kernel Octets JsonText SteerInbox

def FRAME_DOMAIN : Text := "pi-dispatch-inbox-frame".toList
def FRAME_PREFIX_BYTES : Nat := 4
def STEER_STDIN_BUDGET_BYTES : Nat := 4 * 1024 * 1024 - 1024
def STEER_FILE_MAX_BYTES : Nat := 16 * 1024
def STEER_FRAME_MAX_BYTES : Nat := 16 * 1024 + 256

/-- HMAC-SHA256: 32 bytes of a key and a message. -/
structure Hmac where
  digest : Text → List UInt8 → List UInt8
  length : ∀ key message, (digest key message).length = 32

def name (text : String) : Units := Utf16.ofText text.toList

def BODY_KEYS : List Units := [name "v",name "id",name "mode",name "source",name "content"]
def STEER_FRAME_KEYS : List Units :=
  [name "t",name "seq",name "v",name "id",name "mode",name "source",name "content",name "mac"]

section Mac
variable (hmac : Hmac)

/-- What the MAC is of, the sequence number in decimal. -/
def macInput (runId : Text) (seq : Nat) (body : Text) : List UInt8 :=
  utf8 (FRAME_DOMAIN ++ '\x00' :: runId ++ '\x00' :: decimal seq ++ '\x00' :: body)

def frameDigest (key runId : Text) (seq : Nat) (body : Text) : List UInt8 := hmac.digest key (macInput runId seq body)

def frameMac (key runId : Text) (seq : Nat) (body : Text) : Text := toHex (frameDigest hmac key runId seq body)

end Mac

section Bodies
variable (numbers : Numbers)

/-- The message's own members, those that are missing left out. -/
def picked (frame : JsonValue numbers.Value) : List (Units × JsonValue numbers.Value) :=
  BODY_KEYS.filterMap fun key => (frame.field? key).map fun item => (key,item)

def frameBody (frame : JsonValue numbers.Value) : Text := stringify numbers (.object (picked numbers frame))

def text (own : Text) : JsonValue numbers.Value := .string (Utf16.ofText own)

/-- The five fields of an entry's inbox file. -/
def bodyMembers (entry : Entry) (content : Units) : List (Units × JsonValue numbers.Value) :=
  [(name "v",.number (numbers.ofNat 1)),(name "id",text numbers entry.id.toList),
    (name "mode",text numbers entry.mode.text.toList),(name "source",text numbers entry.source.text.toList),
    (name "content",.string content)]

def steerFileJson (framing : Entry → Option Units) (entry : Entry) : Option Text :=
  if ¬SteerFraming.isSteerId entry.id.toList then none
  else (framing entry).bind fun content =>
    let body := stringify numbers (.object (bodyMembers numbers entry content))
    if (utf8 body).length > STEER_FILE_MAX_BYTES then none else some body

end Bodies

def encodeFrame (json : Text) : List UInt8 := writeUInt32BE (utf8 json).length ++ utf8 json

def isObject {N : Type} : JsonValue N → Bool
  | .array _ | .object _ => true
  | _ => false

section Encode
variable (numbers : Numbers) (hmac : Hmac)

def frameMembers (exitKey runId : Text) (seq : Nat) (body : Text) (fields : JsonValue numbers.Value) :
    List (Units × JsonValue numbers.Value) :=
  [(name "t",text numbers "steer".toList),(name "seq",.number (numbers.ofNat seq))] ++ picked numbers fields ++
    [(name "mac",text numbers (frameMac hmac exitKey runId seq body))]

def steerFrame (exitKey runId : Text) (seq : Nat) (body : Text) : Option (List UInt8) :=
  if exitKey = [] ∨ runId = [] ∨ maxSafeInteger < seq ∨ seq < 2 then none
  else (parse numbers body).bind fun fields =>
    if ¬isObject fields ∨ frameBody numbers fields ≠ body then none
    else
      let frame := encodeFrame (stringify numbers (.object (frameMembers numbers hmac exitKey runId seq body fields)))
      if frame.length - FRAME_PREFIX_BYTES > STEER_FRAME_MAX_BYTES then none else some frame

/-- The relay's own variables of its stream, with what it has written. -/
structure Writer where
  nextSeq : Nat
  streamBytes : Nat
  stream : List UInt8
  written : List Text

def Writer.start (consumed : Nat) : Writer := ⟨2,consumed,[],[]⟩

/-- One message as a frame, or none of it: past the budget it is answered as late. -/
def Writer.writeFrame (framing : Entry → Option Units) (exitKey runId : Text) (budget : Nat) (writer : Writer)
    (entry : Entry) : Writer :=
  match steerFileJson numbers framing entry with
  | none => writer
  | some body => match steerFrame numbers hmac exitKey runId writer.nextSeq body with
    | none => writer
    | some frame =>
      if writer.streamBytes + frame.length > budget then writer
      else ⟨writer.nextSeq + 1,writer.streamBytes + frame.length,writer.stream ++ frame,writer.written ++ [body]⟩

end Encode

inductive Broken
  | length
  | json
  | shape
  deriving DecidableEq

/-- What the decoder hands to the inbox. -/
structure Emitted (N : Type) where
  seq : Nat
  id : Option (JsonValue N)
  body : Text
  frame : JsonValue N

structure Decoder (N : Type) where
  buffered : List UInt8
  total : Nat
  lastSeq : Nat
  broken : Option Broken
  ended : Bool
  accepted : Nat
  unverified : Nat
  replayed : Nat
  emitted : List (Emitted N)

/-- A decoder's own values. The inbox has seen what it was handed, and knows an id by that. -/
structure Channel where
  numbers : Numbers
  hmac : Hmac
  key : Text
  runId : Text
  budget : Nat
  isSeen : List (Emitted numbers.Value) → Units → Bool
  seen : ∀ emitted id, isSeen emitted id → ∃ frame ∈ emitted, frame.id = some (.string id)

/-- `TextDecoder` drops a byte order mark in front. -/
def withoutMark : Text → Text
  | '\ufeff' :: rest => rest
  | text => text

def isText {N : Type} (own : Text) : Option (JsonValue N) → Bool
  | some (.string units) => units = Utf16.ofText own
  | _ => false

/-- `MAC_PATTERN`: 64 lower-case hexadecimal digits. -/
def macOf {N : Type} : Option (JsonValue N) → Option Text
  | some (.string units) =>
    let letters := units.map fun unit => Char.ofNat unit.toNat
    if units.length = 64 ∧ units.all (fun unit => unit.toNat < 128) ∧ letters.all isLowerHex then some letters else none
  | _ => none

section Decode
variable (channel : Channel)

def parsePayload (payload : List UInt8) : Option (JsonValue channel.numbers.Value) :=
  (decodeUtf8 payload).bind fun text => parse channel.numbers (withoutMark text)

def seqOf : Option (JsonValue channel.numbers.Value) → Option Nat
  | some (.number value) => match channel.numbers.safe? value with
    | some seq => if 2 ≤ seq then some seq.toNat else none
    | none => none
  | _ => none

/-- The object is a steer frame, with its sequence number and its MAC. -/
def shapeOf : JsonValue channel.numbers.Value → Option (Nat × Text)
  | .object members =>
    let frame : JsonValue channel.numbers.Value := .object members
    if ¬isText "steer".toList (frame.field? (name "t")) ∨ members.length ≠ STEER_FRAME_KEYS.length ∨
      ¬STEER_FRAME_KEYS.all (fun key => (frame.field? key).isSome) then none
    else (seqOf channel (frame.field? (name "seq"))).bind fun seq => (macOf (frame.field? (name "mac"))).map fun mac => (seq,mac)
  | _ => none

inductive Verdict (N : Type)
  | breaks (reason : Broken)
  | unverified
  | replayed
  | accepted (frame : Emitted N)

def isReplayed (decoder : Decoder channel.numbers.Value) (seq : Nat) (id : Option (JsonValue channel.numbers.Value)) : Bool :=
  seq ≤ decoder.lastSeq || match id with
    | some (.string own) => channel.isSeen decoder.emitted own
    | _ => false

def judge (decoder : Decoder channel.numbers.Value) (payload : List UInt8) : Verdict channel.numbers.Value :=
  match parsePayload channel payload with
  | none => .breaks .json
  | some frame => match shapeOf channel frame with
    | none => .breaks .shape
    | some (seq,mac) =>
      let body := frameBody channel.numbers frame
      if frameDigest channel.hmac channel.key channel.runId seq body ≠ fromHex mac then .unverified
      else if isReplayed channel decoder seq (frame.field? (name "id")) then .replayed
      else .accepted ⟨seq,frame.field? (name "id"),body,frame⟩

end Decode

section Loop
variable {N : Type}

def Decoder.brk (decoder : Decoder N) (reason : Broken) : Decoder N :=
  if decoder.broken.isSome then decoder else { decoder with broken := some reason, buffered := [] }

def Decoder.settle (decoder : Decoder N) : Verdict N → Decoder N
  | .breaks reason => decoder.brk reason
  | .unverified => { decoder with unverified := decoder.unverified + 1 }
  | .replayed => { decoder with replayed := decoder.replayed + 1 }
  | .accepted frame =>
    { decoder with lastSeq := frame.seq, accepted := decoder.accepted + 1, emitted := decoder.emitted ++ [frame] }

def Decoder.add (bytes : List UInt8) (decoder : Decoder N) : Decoder N :=
  { decoder with buffered := decoder.buffered ++ bytes }

def Decoder.take (decoder : Decoder N) (length : Nat) : Decoder N :=
  { decoder with
    buffered := decoder.buffered.drop (FRAME_PREFIX_BYTES + length)
    total := decoder.total + FRAME_PREFIX_BYTES + length }

def Decoder.fresh (consumed : Nat) : Decoder N := ⟨[],consumed,1,none,false,0,0,0,[]⟩

end Loop

section Drain
variable (channel : Channel)

/-- One turn of the loop over the buffer; none where it waits for more, or is through. -/
def step (decoder : Decoder channel.numbers.Value) : Option (Decoder channel.numbers.Value) :=
  let length := readUInt32BE decoder.buffered
  if decoder.broken.isSome ∨ decoder.buffered.length < FRAME_PREFIX_BYTES then none
  else if length = 0 ∨ length > STEER_FRAME_MAX_BYTES ∨ decoder.total + FRAME_PREFIX_BYTES + length > channel.budget then
    some (decoder.brk .length)
  else if decoder.buffered.length < FRAME_PREFIX_BYTES + length then none
  else some ((decoder.take length).settle
    (judge channel (decoder.take length) ((decoder.buffered.drop FRAME_PREFIX_BYTES).take length)))

private theorem settle_length {N : Type} (decoder : Decoder N) (verdict : Verdict N) :
    (decoder.settle verdict).buffered.length ≤ decoder.buffered.length := by
  cases verdict with
  | breaks reason =>
    simp only [Decoder.settle,Decoder.brk]
    split
    · exact Nat.le_refl _
    · exact Nat.zero_le _
  | _ => exact Nat.le_refl _

private theorem settle_add {N : Type} {decoder : Decoder N} (running : decoder.broken = none) (bytes : List UInt8)
    (verdict : Verdict N) : (decoder.add bytes).settle verdict =
      if (decoder.settle verdict).broken.isSome then decoder.settle verdict else (decoder.settle verdict).add bytes := by
  cases verdict <;> simp [Decoder.settle,Decoder.brk,Decoder.add,running]

private theorem step_shrinks {decoder next : Decoder channel.numbers.Value} (found : step channel decoder = some next) :
    next.buffered.length < decoder.buffered.length := by
  unfold step at found
  dsimp only at found
  split at found
  · cases found
  next ready =>
    obtain ⟨running,enough⟩ := not_or.mp ready
    have prefix' : FRAME_PREFIX_BYTES = 4 := rfl
    split at found
    · cases Option.some.inj found
      unfold Decoder.brk
      rw [if_neg running]
      exact Nat.lt_of_lt_of_le (show 0 < FRAME_PREFIX_BYTES by decide) (Nat.le_of_not_lt enough)
    next fits =>
      split at found
      · cases found
      · cases Option.some.inj found
        refine Nat.lt_of_le_of_lt (settle_length _ _) ?_
        simp only [Decoder.take,List.length_drop]
        omega

private theorem step_add {decoder next : Decoder channel.numbers.Value} (bytes : List UInt8)
    (found : step channel decoder = some next) : step channel (decoder.add bytes) =
      some (if next.broken.isSome then next else next.add bytes) := by
  unfold step at found
  dsimp only at found
  split at found
  · cases found
  next ready =>
    obtain ⟨running,enough⟩ := not_or.mp ready
    have running : decoder.broken = none := Option.not_isSome_iff_eq_none.mp running
    have prefix' : FRAME_PREFIX_BYTES = 4 := rfl
    have same : readUInt32BE (decoder.add bytes).buffered = readUInt32BE decoder.buffered :=
      readUInt32BE_append (by omega) bytes
    have more : (decoder.add bytes).buffered.length = decoder.buffered.length + bytes.length := List.length_append
    have still : ¬((decoder.add bytes).broken.isSome = true ∨ (decoder.add bytes).buffered.length < FRAME_PREFIX_BYTES) := by
      rw [more]
      simp only [Decoder.add,running]
      simp only [Option.isSome_none,Bool.false_eq_true,false_or]
      omega
    unfold step
    dsimp only
    rw [if_neg still,same]
    split at found
    next beyond =>
      cases Option.some.inj found
      rw [if_pos (by exact beyond)]
      simp [Decoder.brk,Decoder.add,running]
    next fits =>
      rw [if_neg (by exact fits)]
      split at found
      · cases found
      next whole =>
        cases Option.some.inj found
        have taken : (decoder.add bytes).take (readUInt32BE decoder.buffered) =
            (decoder.take (readUInt32BE decoder.buffered)).add bytes := by
          unfold Decoder.take Decoder.add
          dsimp only
          rw [List.drop_append_of_le_length (by omega)]
        have payload : ((decoder.add bytes).buffered.drop FRAME_PREFIX_BYTES).take (readUInt32BE decoder.buffered) =
            (decoder.buffered.drop FRAME_PREFIX_BYTES).take (readUInt32BE decoder.buffered) := by
          unfold Decoder.add
          dsimp only
          rw [List.drop_append_of_le_length (by omega),List.take_append_of_le_length]
          rw [List.length_drop]
          omega
        rw [if_neg (by rw [more]; omega),taken,payload]
        have running : (decoder.take (readUInt32BE decoder.buffered)).broken = none := running
        exact congrArg some (settle_add running bytes _)

/-- The decoder reads as a loop over what has arrived. -/
def reader : Reader (Decoder channel.numbers.Value) UInt8 where
  step := step channel
  left decoder := decoder.buffered.length
  add := Decoder.add
  stopped decoder := decoder.broken.isSome
  shrinks _ _ found := step_shrinks channel found
  rests decoder stopped := if_pos (.inl stopped)
  add_nil decoder := by simp [Decoder.add]
  add_add decoder first second := by simp [Decoder.add]
  add_stopped _ _ := rfl
  step_add _ _ bytes found := step_add channel bytes found

def push (decoder : Decoder channel.numbers.Value) (chunk : List UInt8) : Decoder channel.numbers.Value :=
  if decoder.ended then decoder else (reader channel).push decoder chunk

/-- The end of the stream: a frame that it cut is a break. -/
def finish {N : Type} (decoder : Decoder N) : Decoder N :=
  if decoder.ended then decoder
  else if decoder.broken.isNone ∧ decoder.buffered ≠ [] then { decoder with ended := true }.brk .length
  else { decoder with ended := true }

end Drain

end PiDispatch.SteerFrames
