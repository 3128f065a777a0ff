import PiDispatch.Kernel.JsonBalance
import PiDispatch.SteerFrames

/-! What the worker writes on the pipe is what the runner's decoder hands over, however the bytes are cut; and whatever
the bytes are, their cuts do not matter and the sequence numbers handed over increase. -/
namespace PiDispatch.SteerFrames
open Kernel Octets JsonText SteerInbox

section Letters

private theorem unitsOf_small {letter : Char} (small : letter.toNat < 128) :
    Utf16.unitsOf letter = [UInt16.ofNat letter.toNat] := by
  unfold Utf16.unitsOf
  rw [if_pos (by omega)]

private theorem ofText_small {own : Text} (small : ∀ letter ∈ own, letter.toNat < 128) :
    Utf16.ofText own = own.map fun letter => UInt16.ofNat letter.toNat := by
  induction own with
  | nil => rfl
  | cons letter own ih =>
    rw [Utf16.ofText,List.flatMap_cons,unitsOf_small (small letter List.mem_cons_self),List.map_cons]
    exact congrArg (List.cons _) (ih fun other member => small other (List.mem_cons_of_mem _ member))

private theorem letter_back {letter : Char} (small : letter.toNat < 128) :
    Char.ofNat (UInt16.ofNat letter.toNat).toNat = letter := by
  rw [UInt16.toNat_ofNat_of_lt' (show letter.toNat < 65536 by omega)]
  exact Char.ofNat_toNat letter

private theorem text_back {own : Text} (small : ∀ letter ∈ own, letter.toNat < 128) :
    (Utf16.ofText own).map (fun unit => Char.ofNat unit.toNat) = own := by
  rw [ofText_small small,List.map_map]
  refine (List.map_congr_left fun letter member => ?_).trans (List.map_id own)
  exact letter_back (small letter member)

private theorem lowerHex_small {letter : Char} (lower : isLowerHex letter = true) : letter.toNat < 128 := by
  simp only [isLowerHex,Bool.or_eq_true,Bool.and_eq_true,decide_eq_true_eq,Char.le_def,UInt32.le_iff_toNat_le] at lower
  have nine : '9'.val.toNat = 57 := rfl
  have f : 'f'.val.toNat = 102 := rfl
  change letter.val.toNat < 128
  omega

/-- A MAC is read as it was written. -/
private theorem macOf_text {N : Type} {own : Text} (length : own.length = 64) (lower : ∀ letter ∈ own, isLowerHex letter = true) :
    macOf (some (.string (Utf16.ofText own)) : Option (JsonValue N)) = some own := by
  have small : ∀ letter ∈ own, letter.toNat < 128 := fun letter member => lowerHex_small (lower letter member)
  have units : (Utf16.ofText own).all (fun unit => unit.toNat < 128) = true := by
    rw [ofText_small small,List.all_map,List.all_eq_true]
    intro letter member
    have own := small letter member
    simp only [Function.comp_apply,decide_eq_true_eq]
    rw [UInt16.toNat_ofNat_of_lt' (show letter.toNat < 65536 by omega)]
    exact own
  have size : (Utf16.ofText own).length = 64 := by
    rw [ofText_small small,List.length_map,length]
  unfold macOf
  dsimp only
  rw [text_back small,if_pos ⟨size,units,List.all_eq_true.mpr lower⟩]

private theorem steerId_small {id : List Char} (steer : SteerFraming.isSteerId id = true) :
    ∀ letter ∈ id, letter.toNat < 128 := by
  intro letter member
  have hex := List.all_eq_true.mp (Bool.and_eq_true_iff.mp steer).2 letter member
  have same : SteerFraming.isHex letter = isLowerHex letter := rfl
  exact lowerHex_small (same.symm.trans hex)

private theorem steerId_injective {left right : List Char} (first : SteerFraming.isSteerId left = true)
    (second : SteerFraming.isSteerId right = true) (same : Utf16.ofText left = Utf16.ofText right) : left = right := by
  rw [← text_back (steerId_small first),same,text_back (steerId_small second)]

end Letters

section Fields
variable {N : Type}

private theorem field_own {list : List (Units × JsonValue N)} (distinct : (list.map Prod.fst).Nodup)
    (member : Units × JsonValue N) (inside : member ∈ list) :
    (JsonValue.object list).field? member.1 = some member.2 := by
  induction list with
  | nil => cases inside
  | cons first list ih =>
    rw [List.map_cons,List.nodup_cons] at distinct
    unfold JsonValue.field? at ih ⊢
    dsimp only at ih ⊢
    rcases List.mem_cons.mp inside with rfl | later
    · rw [List.find?_cons_of_pos (by exact decide_eq_true rfl)]
      rfl
    · have other : first.1 ≠ member.1 := fun same => distinct.1 (same ▸ List.mem_map_of_mem later)
      rw [List.find?_cons_of_neg (by simpa using other)]
      exact ih distinct.2 later

private theorem fields_among {list own : List (Units × JsonValue N)} (distinct : (list.map Prod.fst).Nodup)
    (among : ∀ member ∈ own, member ∈ list) :
    (own.map Prod.fst).filterMap (fun key => ((JsonValue.object list).field? key).map fun item => (key,item)) = own := by
  induction own with
  | nil => rfl
  | cons first own ih =>
    have found := field_own distinct first (among first List.mem_cons_self)
    rw [List.map_cons,List.filterMap_cons,found]
    exact congrArg (List.cons _) (ih fun member inside => among member (List.mem_cons_of_mem _ inside))

end Fields

section Written
variable (numbers : Numbers) (hmac : Hmac)

private theorem frame_keys : STEER_FRAME_KEYS.Nodup ∧ ∀ key ∈ STEER_FRAME_KEYS, JsonValue.index? key = none := by decide +kernel

private theorem bodyMembers_keys (entry : Entry) (content : Units) :
    (bodyMembers numbers entry content).map Prod.fst = BODY_KEYS := rfl

private theorem body_keys : BODY_KEYS.Nodup ∧ ∀ key ∈ BODY_KEYS, JsonValue.index? key = none := by
  have sub : BODY_KEYS.Sublist STEER_FRAME_KEYS := by decide +kernel
  exact ⟨frame_keys.1.sublist sub,fun key inside => frame_keys.2 key (sub.subset inside)⟩

private theorem bodyMembers_atoms (entry : Entry) (content : Units) :
    ∀ member ∈ bodyMembers numbers entry content, Atom numbers member.2 := by
  intro member inside
  simp only [bodyMembers,List.mem_cons,List.not_mem_nil,or_false] at inside
  rcases inside with rfl | rfl | rfl | rfl | rfl
  · exact .number 1 (by decide)
  all_goals exact .string _

/-- A file body is read back as its five fields. -/
private theorem parse_body (entry : Entry) (content : Units) :
    parse numbers (stringify numbers (.object (bodyMembers numbers entry content))) =
      some (.object (bodyMembers numbers entry content)) := by
  refine parse_stringify numbers (bodyMembers_atoms numbers entry content) ?_ ?_
  · intro member inside
    exact body_keys.2 _ (bodyMembers_keys numbers entry content ▸ List.mem_map_of_mem inside)
  · rw [bodyMembers_keys]
    exact body_keys.1

private theorem picked_body (entry : Entry) (content : Units) :
    picked numbers (.object (bodyMembers numbers entry content)) = bodyMembers numbers entry content := by
  have distinct : ((bodyMembers numbers entry content).map Prod.fst).Nodup := by
    rw [bodyMembers_keys]
    exact body_keys.1
  have own := @fields_among _ _ (bodyMembers numbers entry content) distinct fun _ inside => inside
  rw [bodyMembers_keys] at own
  exact own

/-- The members of a frame of a message. -/
private def membersOf (exitKey runId : Text) (seq : Nat) (entry : Entry) (content : Units) :
    List (Units × JsonValue numbers.Value) :=
  [(name "t",text numbers "steer".toList),(name "seq",.number (numbers.ofNat seq))] ++ bodyMembers numbers entry content ++
    [(name "mac",text numbers (frameMac hmac exitKey runId seq
      (stringify numbers (.object (bodyMembers numbers entry content)))))]

private theorem membersOf_keys (exitKey runId : Text) (seq : Nat) (entry : Entry) (content : Units) :
    (membersOf numbers hmac exitKey runId seq entry content).map Prod.fst = STEER_FRAME_KEYS := rfl

private theorem membersOf_distinct (exitKey runId : Text) (seq : Nat) (entry : Entry) (content : Units) :
    ((membersOf numbers hmac exitKey runId seq entry content).map Prod.fst).Nodup := by
  rw [membersOf_keys]
  exact frame_keys.1

private theorem parse_frame (exitKey runId : Text) {seq : Nat} (safe : seq ≤ maxSafeInteger) (entry : Entry) (content : Units) :
    parse numbers (stringify numbers (.object (membersOf numbers hmac exitKey runId seq entry content))) =
      some (.object (membersOf numbers hmac exitKey runId seq entry content)) := by
  refine parse_stringify numbers ?_ ?_ (membersOf_distinct numbers hmac exitKey runId seq entry content)
  · intro member inside
    rw [membersOf,List.mem_append,List.mem_append] at inside
    rcases inside with (lead | own) | last
    · rcases List.mem_pair.mp lead with rfl | rfl
      · exact .string _
      · exact .number seq safe
    · exact bodyMembers_atoms numbers entry content member own
    · rw [List.mem_singleton.mp last]
      exact .string _
  · intro member inside
    exact frame_keys.2 _ (membersOf_keys numbers hmac exitKey runId seq entry content ▸ List.mem_map_of_mem inside)

private theorem frameBody_frame (exitKey runId : Text) (seq : Nat) (entry : Entry) (content : Units) :
    frameBody numbers (.object (membersOf numbers hmac exitKey runId seq entry content)) =
      stringify numbers (.object (bodyMembers numbers entry content)) := by
  have own := @fields_among _ _ (bodyMembers numbers entry content)
    (membersOf_distinct numbers hmac exitKey runId seq entry content)
    fun _ inside => List.mem_append_left _ (List.mem_append_right _ inside)
  rw [bodyMembers_keys] at own
  unfold frameBody picked
  rw [own]

private theorem steerFileJson_body {framing : Entry → Option Units} {entry : Entry} {body : Text}
    (made : steerFileJson numbers framing entry = some body) : SteerFraming.isSteerId entry.id.toList = true ∧
      ∃ content, body = stringify numbers (.object (bodyMembers numbers entry content)) := by
  unfold steerFileJson at made
  split at made
  · cases made
  next steer =>
    obtain ⟨content,_,rest⟩ := Option.bind_eq_some_iff.mp made
    dsimp only at rest
    split at rest
    · cases rest
    · exact ⟨Decidable.not_not.mp steer,content,(Option.some.inj rest).symm⟩

/-- The frame of a body, where there is one. -/
private theorem steerFrame_made {exitKey runId : Text} {seq : Nat} {entry : Entry} {content : Units} {frame : List UInt8}
    (made : steerFrame numbers hmac exitKey runId seq (stringify numbers (.object (bodyMembers numbers entry content))) =
      some frame) : 2 ≤ seq ∧ seq ≤ maxSafeInteger ∧
      frame = encodeFrame (stringify numbers (.object (membersOf numbers hmac exitKey runId seq entry content))) ∧
      frame.length ≤ FRAME_PREFIX_BYTES + STEER_FRAME_MAX_BYTES := by
  unfold steerFrame at made
  split at made
  · cases made
  next guard =>
    rw [parse_body,Option.bind_some] at made
    dsimp only at made
    split at made
    · cases made
    split at made
    · cases made
    next fits =>
      have same := Option.some.inj made
      have picks := picked_body numbers entry content
      unfold frameMembers at same fits
      rw [picks] at same fits
      simp only [not_or] at guard
      refine ⟨by omega,by omega,same.symm,?_⟩
      rw [← same]
      omega

/-- What a frame adds to its body. -/
private theorem frame_bytes (exitKey runId : Text) {seq : Nat} (safe : seq ≤ maxSafeInteger) (entry : Entry)
    (content : Units) :
    (utf8 (stringify numbers (.object (membersOf numbers hmac exitKey runId seq entry content)))).length ≤
      (utf8 (stringify numbers (.object (bodyMembers numbers entry content)))).length + 108 := by
  have word : ∀ own : Text, (own.all fun letter => 0x20 ≤ letter.toNat && letter ≠ '"' && letter ≠ '\\' && letter.toNat < 0x80) →
      (utf8 (quoted (Utf16.ofText own))).length = own.length + 2 := by
    intro own plain
    refine quoted_plain_bytes fun letter inside => ?_
    have each := List.all_eq_true.mp plain letter inside
    simp only [Bool.and_eq_true,decide_eq_true_eq] at each
    exact ⟨each.1.1.1,each.1.1.2,each.1.2,each.2⟩
  have digits : (decimal seq).length ≤ 16 := by
    have below : seq < 10 ^ 16 := Nat.lt_of_le_of_lt safe (by decide)
    exact (Nat.length_toDigits_le_iff (by decide) (by decide)).mpr below
  have number : (utf8 (stringify numbers (.number (numbers.ofNat seq)))).length = (decimal seq).length := by
    rw [stringify,numbers.write_ofNat seq safe]
    refine utf8_ascii fun letter inside => ?_
    have digit := Nat.isDigit_of_mem_toDigits (by decide) (by decide) inside
    simp only [Char.isDigit,Bool.and_eq_true,decide_eq_true_eq,UInt32.le_iff_toNat_le] at digit
    have nine : '9'.val.toNat = 57 := rfl
    change letter.val.toNat < 0x80
    omega
  generalize hex : frameMac hmac exitKey runId seq (stringify numbers (.object (bodyMembers numbers entry content))) = mac
  have length : mac.length = 64 := by
    rw [← hex,frameMac,frameDigest,toHex_length,hmac.length]
  have lower : ∀ letter ∈ mac, isLowerHex letter = true := by
    rw [← hex]
    exact toHex_lower _
  have macBytes : (utf8 (stringify numbers (text numbers mac))).length = 66 := by
    change (utf8 (quoted (Utf16.ofText mac))).length = 66
    rw [quoted_plain_bytes,length]
    intro letter inside
    have hexadecimal := lower letter inside
    simp only [isLowerHex,Bool.or_eq_true,Bool.and_eq_true,decide_eq_true_eq,Char.le_def,UInt32.le_iff_toNat_le] at hexadecimal
    have zero : '0'.val.toNat = 48 := rfl
    have a : 'a'.val.toNat = 97 := rfl
    have small := lowerHex_small (lower letter inside)
    have least : 48 ≤ letter.toNat := by
      change 48 ≤ letter.val.toNat
      omega
    have slash : letter ≠ '\\' := by
      rintro rfl
      cases lower _ inside
    exact ⟨by omega,by rintro rfl; exact absurd least (by decide),slash,small⟩
  have type : (utf8 (stringify numbers (text numbers "steer".toList))).length = 7 := word _ (by decide)
  have own : bodyMembers numbers entry content ≠ [] := List.cons_ne_nil _ _
  have whole : membersOf numbers hmac exitKey runId seq entry content ≠ [] := List.cons_ne_nil _ _
  have t : (utf8 (quoted (name "t"))).length = 3 := word _ (by decide)
  have seq' : (utf8 (quoted (name "seq"))).length = 5 := word _ (by decide)
  have mac' : (utf8 (quoted (name "mac"))).length = 5 := word _ (by decide)
  rw [object_bytes_exact own,object_bytes_exact whole]
  unfold membersOf
  rw [hex,List.map_append,List.map_append,List.sum_append,List.sum_append]
  simp only [List.map_cons,List.map_nil,List.sum_cons,List.sum_nil,member_bytes,type,t,seq',mac',macBytes,number]
  omega

/-- A body that fits the inbox file has its frame, under any key and run id. -/
theorem steerFrame_fits {exitKey runId : Text} (keyed : exitKey ≠ []) (named : runId ≠ []) {seq : Nat} (least : 2 ≤ seq)
    (safe : seq ≤ maxSafeInteger) {framing : Entry → Option Units} {entry : Entry} {body : Text}
    (made : steerFileJson numbers framing entry = some body) : (steerFrame numbers hmac exitKey runId seq body).isSome := by
  have fits : (utf8 body).length ≤ STEER_FILE_MAX_BYTES := by
    unfold steerFileJson at made
    split at made
    · cases made
    · obtain ⟨content,_,rest⟩ := Option.bind_eq_some_iff.mp made
      dsimp only at rest
      split at rest
      · cases rest
      next small =>
        rw [← Option.some.inj rest]
        exact Nat.le_of_not_gt small
  obtain ⟨_,content,rfl⟩ := steerFileJson_body numbers made
  have bytes := frame_bytes numbers hmac exitKey runId safe entry content
  have body := frameBody_frame numbers hmac exitKey runId seq entry content
  have picks := picked_body numbers entry content
  have written : frameBody numbers (.object (bodyMembers numbers entry content)) =
      stringify numbers (.object (bodyMembers numbers entry content)) := by
    unfold frameBody
    rw [picks]
  have most : STEER_FRAME_MAX_BYTES = STEER_FILE_MAX_BYTES + 256 := rfl
  unfold steerFrame
  rw [if_neg (by simp only [keyed,named,false_or]; omega),parse_body,Option.bind_some]
  dsimp only
  rw [if_neg (by rw [written]; simp [isObject]),if_neg]
  · rfl
  · unfold frameMembers
    rw [picks]
    change ¬(encodeFrame (stringify numbers (.object (membersOf numbers hmac exitKey runId seq entry content)))).length -
      FRAME_PREFIX_BYTES > STEER_FRAME_MAX_BYTES
    have length : (encodeFrame (stringify numbers (.object (membersOf numbers hmac exitKey runId seq entry content)))).length =
        FRAME_PREFIX_BYTES + (utf8 (stringify numbers (.object (membersOf numbers hmac exitKey runId seq entry content)))).length :=
      List.length_append
    omega

end Written

section Read
variable (channel : Channel)

private theorem shapeOf_frame {seq : Nat} (least : 2 ≤ seq) (safe : seq ≤ maxSafeInteger) (entry : Entry) (content : Units) :
    shapeOf channel (.object (membersOf channel.numbers channel.hmac channel.key channel.runId seq entry content)) =
      some (seq,frameMac channel.hmac channel.key channel.runId seq
        (stringify channel.numbers (.object (bodyMembers channel.numbers entry content)))) := by
  have distinct := membersOf_distinct channel.numbers channel.hmac channel.key channel.runId seq entry content
  have keys := membersOf_keys channel.numbers channel.hmac channel.key channel.runId seq entry content
  generalize shape : membersOf channel.numbers channel.hmac channel.key channel.runId seq entry content = list at distinct keys ⊢
  have t : (JsonValue.object list).field? (name "t") = some (text channel.numbers "steer".toList) :=
    field_own distinct (name "t",_) (shape ▸ List.mem_append_left _ (List.mem_append_left _ List.mem_cons_self))
  have number : (JsonValue.object list).field? (name "seq") = some (.number (channel.numbers.ofNat seq)) := by
    refine field_own distinct (name "seq",_) (shape ▸ List.mem_append_left _ (List.mem_append_left _ ?_))
    exact List.mem_cons_of_mem _ List.mem_cons_self
  have mac : (JsonValue.object list).field? (name "mac") = some (text channel.numbers (frameMac channel.hmac channel.key
      channel.runId seq (stringify channel.numbers (.object (bodyMembers channel.numbers entry content))))) :=
    field_own distinct (name "mac",_) (shape ▸ List.mem_append_right _ List.mem_cons_self)
  have present : STEER_FRAME_KEYS.all (fun key => ((JsonValue.object list).field? key).isSome) = true := by
    rw [← keys,List.all_map,List.all_eq_true]
    intro member inside
    rw [Function.comp_apply,field_own distinct member inside]
    rfl
  have length : list.length = STEER_FRAME_KEYS.length := by
    rw [← keys,List.length_map]
  have digits : (frameMac channel.hmac channel.key channel.runId seq
      (stringify channel.numbers (.object (bodyMembers channel.numbers entry content)))).length = 64 := by
    unfold frameMac frameDigest
    rw [toHex_length,channel.hmac.length]
  have back := @macOf_text channel.numbers.Value _ digits (toHex_lower _)
  unfold shapeOf
  dsimp only
  rw [t,number,mac,present,length]
  change (if _ then _ else (seqOf channel _).bind fun seq => Option.map _ (macOf (some (.string _)))) = _
  rw [back]
  have steer : isText "steer".toList (some (text channel.numbers "steer".toList)) = true := by simp [isText,text]
  rw [steer,if_neg (by simp)]
  unfold seqOf
  dsimp only
  rw [channel.numbers.safe_ofNat seq safe]
  dsimp only
  rw [if_pos (by omega)]
  rfl

private theorem withoutMark_brace (rest : Text) : withoutMark ('{' :: rest) = '{' :: rest := by
  unfold withoutMark
  split
  next same =>
    injection same with same _
    cases same
  · rfl

private theorem parsePayload_frame {seq : Nat} (safe : seq ≤ maxSafeInteger) (entry : Entry) (content : Units) :
    parsePayload channel (utf8 (stringify channel.numbers
      (.object (membersOf channel.numbers channel.hmac channel.key channel.runId seq entry content)))) =
      some (.object (membersOf channel.numbers channel.hmac channel.key channel.runId seq entry content)) := by
  have read := parse_frame channel.numbers channel.hmac channel.key channel.runId safe entry content
  unfold parsePayload
  rw [decodeUtf8_utf8,Option.bind_some]
  rw [stringify] at read ⊢
  rw [withoutMark_brace]
  exact read

/-- What the decoder finds in a frame of the worker. -/
private theorem judge_frame {decoder : Decoder channel.numbers.Value} {seq : Nat} (least : 2 ≤ seq) (safe : seq ≤ maxSafeInteger)
    (above : decoder.lastSeq < seq) (entry : Entry) (content : Units)
    (unseen : channel.isSeen decoder.emitted (Utf16.ofText entry.id.toList) = false) :
    judge channel decoder (utf8 (stringify channel.numbers
      (.object (membersOf channel.numbers channel.hmac channel.key channel.runId seq entry content)))) =
      .accepted ⟨seq,some (text channel.numbers entry.id.toList),
        stringify channel.numbers (.object (bodyMembers channel.numbers entry content)),
        .object (membersOf channel.numbers channel.hmac channel.key channel.runId seq entry content)⟩ := by
  have id : (JsonValue.object (membersOf channel.numbers channel.hmac channel.key channel.runId seq entry content)).field?
      (name "id") = some (text channel.numbers entry.id.toList) := by
    refine field_own (membersOf_distinct channel.numbers channel.hmac channel.key channel.runId seq entry content)
      (name "id",_) (List.mem_append_left _ (List.mem_append_right _ ?_))
    exact List.mem_cons_of_mem _ List.mem_cons_self
  unfold judge
  rw [parsePayload_frame channel safe]
  dsimp only
  rw [shapeOf_frame channel least safe]
  dsimp only
  rw [frameBody_frame,if_neg (by rw [frameMac,fromHex_toHex]; simp),id]
  have fresh : isReplayed channel decoder seq (some (text channel.numbers entry.id.toList)) = false := by
    unfold isReplayed text
    dsimp only
    rw [unseen]
    simp [above]
  rw [fresh]
  rfl

private theorem utf8_brace (rest : Text) : 0 < (utf8 ('{' :: rest)).length := by
  have one : (String.utf8EncodeChar '{').length = 1 := by decide
  rw [utf8,List.flatMap_cons,List.length_append,one]
  omega

/-- One turn of the loop over a frame that fits. -/
private theorem step_payload {decoder : Decoder channel.numbers.Value} (empty : decoder.buffered = []) (running : decoder.broken = none)
    {payload : List UInt8} (some' : 0 < payload.length) (small : payload.length ≤ STEER_FRAME_MAX_BYTES)
    (fits : decoder.total + (writeUInt32BE payload.length ++ payload).length ≤ channel.budget) :
    step channel (decoder.add (writeUInt32BE payload.length ++ payload)) =
      some ({ decoder with total := decoder.total + (writeUInt32BE payload.length ++ payload).length }.settle
        (judge channel { decoder with total := decoder.total + (writeUInt32BE payload.length ++ payload).length } payload)) := by
  have most : STEER_FRAME_MAX_BYTES = 16640 := rfl
  have four : FRAME_PREFIX_BYTES = 4 := rfl
  have size : (writeUInt32BE payload.length ++ payload).length = 4 + payload.length := List.length_append
  have read : readUInt32BE (writeUInt32BE payload.length ++ payload) = payload.length :=
    readUInt32BE_write (by omega) payload
  have held : (decoder.add (writeUInt32BE payload.length ++ payload)).buffered = writeUInt32BE payload.length ++ payload := by
    simp [Decoder.add,empty]
  have still : (decoder.add (writeUInt32BE payload.length ++ payload)).broken = none := running
  have counted : (decoder.add (writeUInt32BE payload.length ++ payload)).total = decoder.total := rfl
  have rest : (writeUInt32BE payload.length ++ payload).drop FRAME_PREFIX_BYTES = payload := rfl
  have own : (decoder.add (writeUInt32BE payload.length ++ payload)).take payload.length =
      { decoder with total := decoder.total + (writeUInt32BE payload.length ++ payload).length } := by
    unfold Decoder.take
    rw [held,size,List.drop_eq_nil_of_le (by rw [size,four])]
    simp only [Decoder.add,empty]
    rw [four,Nat.add_assoc]
  unfold step
  dsimp only
  rw [held,read,still,counted,if_neg (by rw [size,four]; simp),if_neg (by omega),if_neg (by rw [size,four]; omega),own,rest,
    List.take_length]

private theorem drained_empty {decoder : Decoder channel.numbers.Value} (empty : decoder.buffered = []) :
    (reader channel).Drained decoder := by
  change step channel decoder = none
  unfold step
  dsimp only
  rw [if_pos (.inr (by rw [empty]; decide))]

private theorem push_step {decoder next : Decoder channel.numbers.Value} (reading : decoder.ended = false)
    (running : decoder.broken = none) {bytes : List UInt8} (stepped : step channel (decoder.add bytes) = some next)
    (empty : next.buffered = []) : push channel decoder bytes = next := by
  have still : (reader channel).stopped decoder = false := by
    change decoder.broken.isSome = false
    rw [running]
    rfl
  have drained := drained_empty channel empty
  have found : (reader channel).step ((reader channel).add bytes decoder) = some next := stepped
  unfold push Reader.push
  rw [reading,still,(reader channel).drain_step found,(reader channel).drain_of_drained drained]
  rfl

/-- The decoder is where the relay's writer is. -/
private structure Abreast (past : List Entry) (writer : Writer) (decoder : Decoder channel.numbers.Value) : Prop where
  buffered : decoder.buffered = []
  total : decoder.total = writer.streamBytes
  next : decoder.lastSeq + 1 = writer.nextSeq
  running : decoder.broken = none
  reading : decoder.ended = false
  unverified : decoder.unverified = 0
  replayed : decoder.replayed = 0
  bodies : decoder.emitted.map Emitted.body = writer.written
  known : ∀ frame ∈ decoder.emitted, ∃ entry ∈ past, SteerFraming.isSteerId entry.id.toList = true ∧
    frame.id = some (text channel.numbers entry.id.toList)

private theorem Abreast.push_frame {past : List Entry} {writer : Writer} {decoder : Decoder channel.numbers.Value}
    (abreast : Abreast channel past writer decoder) {framing : Entry → Option Units} {entry : Entry}
    (apart : ∀ other ∈ past, other.id ≠ entry.id) {body : Text} (made : steerFileJson channel.numbers framing entry = some body)
    {frame : List UInt8} (framed : steerFrame channel.numbers channel.hmac channel.key channel.runId writer.nextSeq body = some frame)
    (fits : writer.streamBytes + frame.length ≤ channel.budget) :
    Abreast channel (past ++ [entry])
      ⟨writer.nextSeq + 1,writer.streamBytes + frame.length,writer.stream ++ frame,writer.written ++ [body]⟩
      (push channel decoder frame) := by
  obtain ⟨steer,content,rfl⟩ := steerFileJson_body channel.numbers made
  obtain ⟨least,safe,rfl,small⟩ := steerFrame_made channel.numbers channel.hmac framed
  unfold encodeFrame at small fits ⊢
  have above : decoder.lastSeq < writer.nextSeq := by
    have next := abreast.next
    omega
  have unseen : channel.isSeen decoder.emitted (Utf16.ofText entry.id.toList) = false := by
    by_contra seen
    obtain ⟨frame,inside,id⟩ := channel.seen _ _ (Bool.eq_true_of_not_eq_false seen)
    obtain ⟨other,earlier,steered,own⟩ := abreast.known frame inside
    rw [own] at id
    have same := steerId_injective steered steer (JsonValue.string.inj (Option.some.inj id))
    exact apart other earlier (String.toList_inj.mp same)
  generalize object : membersOf channel.numbers channel.hmac channel.key channel.runId writer.nextSeq entry content = members
    at small fits ⊢
  generalize payload : utf8 (stringify channel.numbers (.object members)) = bytes at small fits ⊢
  have some' : 0 < bytes.length := by
    rw [← payload,stringify]
    exact utf8_brace _
  have size : bytes.length ≤ STEER_FRAME_MAX_BYTES := by
    have whole : (writeUInt32BE bytes.length ++ bytes).length = FRAME_PREFIX_BYTES + bytes.length := List.length_append
    omega
  have stepped := step_payload channel abreast.buffered abreast.running some' size (by rw [abreast.total]; exact fits)
  have judged := @judge_frame channel { decoder with total := decoder.total + (writeUInt32BE bytes.length ++ bytes).length }
    writer.nextSeq least safe above entry content unseen
  rw [object,payload] at judged
  rw [judged] at stepped
  have pushed : push channel decoder (writeUInt32BE bytes.length ++ bytes) = _ :=
    push_step channel abreast.reading abreast.running stepped abreast.buffered
  rw [pushed]
  exact {
    buffered := abreast.buffered
    total := by rw [← abreast.total]; rfl
    next := rfl
    running := abreast.running
    reading := abreast.reading
    unverified := abreast.unverified
    replayed := abreast.replayed
    bodies := by
      rw [← abreast.bodies]
      exact List.map_append
    known := by
      intro frame inside
      rcases List.mem_append.mp inside with old | new
      · obtain ⟨other,earlier,steered,own⟩ := abreast.known frame old
        exact ⟨other,List.mem_append_left _ earlier,steered,own⟩
      · rw [List.mem_singleton.mp new]
        exact ⟨entry,List.mem_append_right _ List.mem_cons_self,steer,rfl⟩
  }

end Read

section Cuts
variable (channel : Channel)

/-- What the decoder is after these chunks. -/
def decoded (consumed : Nat) (chunks : List (List UInt8)) : Decoder channel.numbers.Value :=
  chunks.foldl (push channel) (Decoder.fresh consumed)

private theorem settle_ended {N : Type} (decoder : Decoder N) (verdict : Verdict N) :
    (decoder.settle verdict).ended = decoder.ended := by
  cases verdict with
  | breaks reason =>
    unfold Decoder.settle Decoder.brk
    dsimp only
    split <;> rfl
  | _ => rfl

/-- What a turn of the loop may do. -/
private theorem step_cases {decoder next : Decoder channel.numbers.Value} (found : step channel decoder = some next) :
    next = decoder.brk .length ∨ ∃ length, next = (decoder.take length).settle
      (judge channel (decoder.take length) ((decoder.buffered.drop FRAME_PREFIX_BYTES).take length)) := by
  unfold step at found
  dsimp only at found
  split at found
  · cases found
  split at found
  · exact .inl (Option.some.inj found).symm
  split at found
  · cases found
  · exact .inr ⟨_,(Option.some.inj found).symm⟩

private theorem step_ended {decoder next : Decoder channel.numbers.Value} (found : step channel decoder = some next) :
    next.ended = decoder.ended := by
  rcases step_cases channel found with rfl | ⟨length,rfl⟩
  · exact settle_ended decoder (.breaks .length)
  · exact settle_ended _ _

private theorem push_reading {decoder : Decoder channel.numbers.Value} (reading : decoder.ended = false) (bytes : List UInt8) :
    ((reader channel).push decoder bytes).ended = false := by
  unfold Reader.push
  split
  · exact reading
  · have kept : ∀ state next, (reader channel).step state = some next → state.ended = false → next.ended = false :=
      fun _ _ found still => (step_ended channel found).trans still
    exact (reader channel).drain_keeps kept reading

private theorem pushes_reader {decoder : Decoder channel.numbers.Value} (reading : decoder.ended = false)
    (chunks : List (List UInt8)) : chunks.foldl (push channel) decoder = chunks.foldl (reader channel).push decoder := by
  induction chunks generalizing decoder with
  | nil => rfl
  | cons first chunks ih =>
    rw [List.foldl_cons,List.foldl_cons]
    have same : push channel decoder first = (reader channel).push decoder first := by
      unfold push
      rw [reading]
      rfl
    rw [same]
    exact ih (push_reading channel reading first)

/-- The cuts do not matter: all of the bytes at once say what the decoder is. -/
private theorem decoded_flatten (consumed : Nat) (chunks : List (List UInt8)) :
    decoded channel consumed chunks = (reader channel).drain ((Decoder.fresh consumed).add chunks.flatten) := by
  have start : (reader channel).Drained (Decoder.fresh consumed) := drained_empty channel rfl
  have all := (reader channel).pushes_flatten start chunks
  unfold decoded
  rw [pushes_reader channel rfl,all]
  rfl

end Cuts

section Found
variable (channel : Channel)

/-- A frame that stands in the bytes and carries the MAC of its own sequence number and body. -/
private def Signed (stream : List UInt8) (frame : Emitted channel.numbers.Value) : Prop :=
  ∃ payload mac, payload <:+: stream ∧ parsePayload channel payload = some frame.frame ∧
    shapeOf channel frame.frame = some (frame.seq,mac) ∧ frame.body = frameBody channel.numbers frame.frame ∧
    frameDigest channel.hmac channel.key channel.runId frame.seq frame.body = fromHex mac

private structure Ordered (stream : List UInt8) (decoder : Decoder channel.numbers.Value) : Prop where
  behind : decoder.buffered <:+ stream
  increasing : decoder.emitted.Pairwise fun first second => first.seq < second.seq
  last : ∀ frame ∈ decoder.emitted, frame.seq ≤ decoder.lastSeq
  signed : ∀ frame ∈ decoder.emitted, Signed channel stream frame
  counted : decoder.accepted = decoder.emitted.length

private theorem judge_accepted {stream : List UInt8} {decoder : Decoder channel.numbers.Value} {payload : List UInt8}
    (inside : payload <:+: stream) {frame : Emitted channel.numbers.Value}
    (accepted : judge channel decoder payload = .accepted frame) : decoder.lastSeq < frame.seq ∧ Signed channel stream frame := by
  unfold judge at accepted
  split at accepted
  · cases accepted
  next parsed read =>
    split at accepted
    · cases accepted
    next seq mac shape =>
      dsimp only at accepted
      split at accepted
      · cases accepted
      next verified =>
        split at accepted
        · cases accepted
        next fresh =>
          cases Verdict.accepted.inj accepted
          have above : decoder.lastSeq < seq := by
            simp only [isReplayed,Bool.or_eq_true,decide_eq_true_eq,not_or] at fresh
            omega
          exact ⟨above,payload,mac,inside,read,shape,rfl,Decidable.not_not.mp verified⟩

private theorem Ordered.brk {stream : List UInt8} {decoder : Decoder channel.numbers.Value}
    (ordered : Ordered channel stream decoder) (reason : Broken) : Ordered channel stream (decoder.brk reason) := by
  unfold Decoder.brk
  split
  · exact ordered
  · exact { ordered with behind := List.nil_suffix }

private theorem Ordered.settle {stream : List UInt8} {decoder : Decoder channel.numbers.Value}
    (ordered : Ordered channel stream decoder) {payload : List UInt8} (inside : payload <:+: stream) :
    Ordered channel stream (decoder.settle (judge channel decoder payload)) := by
  cases found : judge channel decoder payload with
  | breaks reason => exact ordered.brk channel reason
  | unverified => exact ⟨ordered.behind,ordered.increasing,ordered.last,ordered.signed,ordered.counted⟩
  | replayed => exact ⟨ordered.behind,ordered.increasing,ordered.last,ordered.signed,ordered.counted⟩
  | accepted frame =>
    obtain ⟨above,signed⟩ := judge_accepted channel inside found
    have below : ∀ other ∈ decoder.emitted, other.seq < frame.seq := fun other member =>
      Nat.lt_of_le_of_lt (ordered.last other member) above
    refine ⟨ordered.behind,?_,?_,?_,?_⟩
    · apply List.pairwise_append.mpr
      refine ⟨ordered.increasing,List.pairwise_singleton _ _,?_⟩
      intro other member last own
      rw [List.mem_singleton.mp own]
      exact below other member
    · intro other member
      rcases List.mem_append.mp member with old | new
      · exact Nat.le_of_lt (below other old)
      · rw [List.mem_singleton.mp new]
        exact Nat.le_refl _
    · intro other member
      rcases List.mem_append.mp member with old | new
      · exact ordered.signed other old
      · rw [List.mem_singleton.mp new]
        exact signed
    · change decoder.accepted + 1 = (decoder.emitted ++ [frame]).length
      rw [List.length_append,ordered.counted]
      rfl

private theorem Ordered.step {stream : List UInt8} {decoder next : Decoder channel.numbers.Value}
    (found : step channel decoder = some next) (ordered : Ordered channel stream decoder) : Ordered channel stream next := by
  rcases step_cases channel found with rfl | ⟨length,rfl⟩
  · exact ordered.brk channel .length
  · have dropped : ∀ count, decoder.buffered.drop count <:+ stream := fun count =>
      List.IsSuffix.trans (List.drop_suffix count _) ordered.behind
    have inside : (decoder.buffered.drop FRAME_PREFIX_BYTES).take length <:+: stream :=
      List.IsInfix.trans (List.take_prefix length _).isInfix (dropped _).isInfix
    have taken : Ordered channel stream (decoder.take length) :=
      ⟨dropped _,ordered.increasing,ordered.last,ordered.signed,ordered.counted⟩
    exact taken.settle channel inside

private theorem decoded_ordered (consumed : Nat) (chunks : List (List UInt8)) :
    Ordered channel chunks.flatten (decoded channel consumed chunks) := by
  rw [decoded_flatten]
  apply (reader channel).drain_keeps fun _ _ found ordered => Ordered.step channel found ordered
  refine ⟨?_,List.Pairwise.nil,?_,?_,rfl⟩
  · exact List.suffix_refl _
  · intro frame none
    cases none
  · intro frame none
    cases none

end Found

section Channels
variable (channel : Channel)

/-- What the relay writes of these entries, one after the other. -/
def sent (framing : Entry → Option Units) (consumed : Nat) (entries : List Entry) : Writer :=
  entries.foldl (Writer.writeFrame channel.numbers channel.hmac framing channel.key channel.runId channel.budget)
    (Writer.start consumed)

private theorem abreast_run (framing : Entry → Option Units) (consumed : Nat) {entries : List Entry}
    (distinct : (entries.map Entry.id).Nodup) : ∃ frames : List (List UInt8),
      frames.flatten = (sent channel framing consumed entries).stream ∧
        Abreast channel entries (sent channel framing consumed entries) (decoded channel consumed frames) := by
  induction entries using List.reverseRecOn with
  | nil =>
    refine ⟨[],rfl,rfl,rfl,rfl,rfl,rfl,rfl,rfl,rfl,?_⟩
    intro frame none
    cases none
  | append_singleton past entry ih =>
    rw [List.map_append,List.nodup_append] at distinct
    obtain ⟨frames,stream,abreast⟩ := ih distinct.1
    have apart : ∀ other ∈ past, other.id ≠ entry.id := fun other member =>
      distinct.2.2 other.id (List.mem_map_of_mem member) entry.id List.mem_cons_self
    have unsent : Abreast channel (past ++ [entry]) (sent channel framing consumed past) (decoded channel consumed frames) := by
      refine { abreast with known := fun frame inside => ?_ }
      obtain ⟨other,earlier,known⟩ := abreast.known frame inside
      exact ⟨other,List.mem_append_left _ earlier,known⟩
    have last : sent channel framing consumed (past ++ [entry]) =
        Writer.writeFrame channel.numbers channel.hmac framing channel.key channel.runId channel.budget
          (sent channel framing consumed past) entry := List.foldl_append
    rw [last]
    unfold Writer.writeFrame
    split
    · exact ⟨frames,stream,unsent⟩
    next body made =>
      split
      · exact ⟨frames,stream,unsent⟩
      next frame framed =>
        split
        · exact ⟨frames,stream,unsent⟩
        next fits =>
          refine ⟨frames ++ [frame],?_,?_⟩
          · rw [List.flatten_append,stream,List.flatten_singleton]
          · have pushed := abreast.push_frame channel apart made framed (Nat.le_of_not_lt fits)
            unfold decoded at pushed ⊢
            rw [List.foldl_append]
            exact pushed

private theorem decoded_alike (consumed : Nat) {chunks others : List (List UInt8)} (same : chunks.flatten = others.flatten) :
    decoded channel consumed chunks = decoded channel consumed others := by
  rw [decoded_flatten,decoded_flatten,same]

/-- Nobody without the key signs: whatever stands in the bytes under a MAC that is right was made with it. -/
def Unforged (made : Nat → Text → Prop) (stream : List UInt8) : Prop :=
  ∀ payload frame seq mac, payload <:+: stream → parsePayload channel payload = some frame →
    shapeOf channel frame = some (seq,mac) →
    frameDigest channel.hmac channel.key channel.runId seq (frameBody channel.numbers frame) = fromHex mac →
    made seq (frameBody channel.numbers frame)

/-- The bodies written are handed over in their order, whatever the cuts, with nothing dropped and nothing broken. Of any
bytes at all the cuts do not matter, the sequence numbers handed over increase, and no body is handed over that was not made
with the key for its place. -/
theorem written_is_delivered (consumed : Nat) :
    (∀ framing entries, (entries.map Entry.id).Nodup → ∀ chunks,
      chunks.flatten = (sent channel framing consumed entries).stream →
      (decoded channel consumed chunks).emitted.map Emitted.body = (sent channel framing consumed entries).written ∧
      (decoded channel consumed chunks).accepted = (sent channel framing consumed entries).written.length ∧
      (decoded channel consumed chunks).unverified = 0 ∧ (decoded channel consumed chunks).replayed = 0 ∧
      (decoded channel consumed chunks).broken = none ∧ (finish (decoded channel consumed chunks)).broken = none) ∧
    (∀ chunks others, chunks.flatten = others.flatten →
      decoded channel consumed chunks = decoded channel consumed others) ∧
    ∀ chunks, (decoded channel consumed chunks).emitted.Pairwise (fun first second => first.seq < second.seq) ∧
      ∀ made, Unforged channel made chunks.flatten →
        ∀ frame ∈ (decoded channel consumed chunks).emitted, made frame.seq frame.body := by
  refine ⟨?_,fun chunks others same => decoded_alike channel consumed same,fun chunks => ⟨?_,?_⟩⟩
  · intro framing entries distinct chunks stream
    obtain ⟨frames,own,abreast⟩ := abreast_run channel framing consumed distinct
    have counted := (decoded_ordered channel consumed frames).counted
    have same : chunks.flatten = frames.flatten := stream.trans own.symm
    rw [decoded_alike channel consumed same]
    have bodies := abreast.bodies
    refine ⟨bodies,?_,abreast.unverified,abreast.replayed,abreast.running,?_⟩
    · rw [← bodies,List.length_map,counted]
    · unfold finish
      rw [abreast.reading,abreast.buffered]
      simpa using abreast.running
  · exact (decoded_ordered channel consumed chunks).increasing
  · intro made unforged frame inside
    obtain ⟨payload,mac,within,read,shape,body,verified⟩ := (decoded_ordered channel consumed chunks).signed frame inside
    have own := unforged payload frame.frame frame.seq mac within read shape (body ▸ verified)
    exact body ▸ own

end Channels

def tokens : Numbers where
  Value := Text
  ofNat := decimal
  read token := token
  write token := token
  safe? token :=
    let number := Nat.ofDigitChars 10 token 0
    if token = decimal number ∧ number ≤ maxSafeInteger then some number else none
  read_decimal := wholeNumbers.write_ofNat
  write_ofNat := wholeNumbers.write_ofNat
  safe_ofNat := decimal_safe

def waitBody : Text :=
  ("\x7b\"v\":1,\"id\":\"0123456789abcdef0123456789abcdef\"," ++
    "\"mode\":\"followUp\",\"source\":\"console\",\"content\":\"wait\"\x7d").toList

def mainBody : Text :=
  ("\x7b\"v\":1,\"id\":\"1123456789abcdef0123456789abcdef\"," ++
    "\"mode\":\"followUp\",\"source\":\"console\",\"content\":\"use \\\"main\\\"\"\x7d").toList

/-- The digest, at the two messages of the example. -/
def digests : Hmac where
  digest _ message :=
    if message = macInput "run-7".toList 2 waitBody then
      [42,104,141,214,25,117,173,123,250,175,61,55,213,78,1,81,
        184,19,170,247,77,20,245,4,255,195,149,73,73,30,201,39]
    else if message = macInput "run-7".toList 3 mainBody then
      [111,67,139,91,118,96,71,3,137,99,163,125,78,45,124,222,
        27,60,210,47,95,191,211,51,58,58,204,68,213,71,235,170]
    else List.replicate 32 0
  length _ _ := by
    split
    · rfl
    · split <;> rfl

def pipe : Channel where
  numbers := tokens
  hmac := digests
  key := (List.replicate 32 ['6','b']).flatten
  runId := "run-7".toList
  budget := STEER_STDIN_BUDGET_BYTES
  isSeen emitted id := emitted.any fun frame => match frame.id with
    | some (.string own) => decide (own = id)
    | _ => false
  seen emitted id found := by
    obtain ⟨frame,inside,same⟩ := List.any_eq_true.mp found
    refine ⟨frame,inside,?_⟩
    split at same
    next own known => rw [known,of_decide_eq_true same]
    · cases same

def messages : List Entry :=
  [⟨"0123456789abcdef0123456789abcdef",.followUp,.console,.operator "owner","wait",0,none,none⟩,
    ⟨"1123456789abcdef0123456789abcdef",.followUp,.console,.operator "owner","use \"main\"",0,none,none⟩]

def framed (entry : Entry) : Option Units := some (Utf16.ofText entry.text.toList)

/-- Two messages arrive, their bytes cut inside the first length and inside the second frame. -/
theorem two_are_delivered : (sent pipe framed 88 messages).written = [waitBody,mainBody] ∧
    (decoded pipe 88 [(sent pipe framed 88 messages).stream.take 3,((sent pipe framed 88 messages).stream.drop 3).take 300,
      ((sent pipe framed 88 messages).stream.drop 3).drop 300]).emitted.map Emitted.body = [waitBody,mainBody] := by
  have written : (sent pipe framed 88 messages).written = [waitBody,mainBody] := by decide +kernel
  have delivered := (written_is_delivered pipe 88).1 framed messages (by decide)
    [(sent pipe framed 88 messages).stream.take 3,((sent pipe framed 88 messages).stream.drop 3).take 300,
      ((sent pipe framed 88 messages).stream.drop 3).drop 300]
    (by simp only [List.flatten_cons,List.flatten_nil,List.append_nil,List.take_append_drop])
  exact ⟨written,delivered.1.trans written⟩

end PiDispatch.SteerFrames
