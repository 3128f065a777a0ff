import PiDispatch.ConsoleAuditSteps

/-! Runs of appends, crashes and reapers over one audit directory: where the rows whose append returned stay lines of their
own, and where the chain goes on to verify. -/
namespace PiDispatch.ConsoleAudit
open Kernel JsonText

/-- A directory, the rows whose append returned and whose file is still there, and the month files that were ever written. -/
structure Log where
  dir : Directory
  rows : List (String × Text)
  written : List String

def Log.none : Log := ⟨.empty,[],[]⟩

/-- What happens to a directory. A crash stops an append within its write: `lost` bytes of the row are missing, and the
line's end. -/
inductive Event
  | append (input : Input) (now : Int)
  | crash (input : Input) (now : Int) (lost : Nat)
  | reap (retentionDays : Nat) (now : Int)

def noted (written : List String) (file : String) : List String :=
  if isMonthFile file ∧ file ∉ written then written ++ [file] else written

/-- A file is created before anything is written to it. -/
def crashed (dir : Directory) (file : String) (bytes : List UInt8) (now : Int) : Directory :=
  if bytes = [] ∧ file ∈ dir.keys then dir else appendFile dir file bytes now

section Running
variable (arithmetic : Arithmetic) (sha256 : Text → Text)

def Log.step (log : Log) : Event → Log
  | .append input now => match appended arithmetic sha256 log.dir input now with
    | .error _ => log
    | .ok row => ⟨appendFile log.dir row.1 (Octets.utf8 row.2 ++ [Utf8.newline]) now,log.rows ++ [row],noted log.written row.1⟩
  | .crash input now lost => match appended arithmetic sha256 log.dir input now with
    | .error _ => log
    | .ok row =>
      let bytes := Octets.utf8 row.2
      ⟨crashed log.dir row.1 (bytes.take (bytes.length - lost)) now,log.rows,noted log.written row.1⟩
  | .reap retentionDays now =>
    let dir := reapConsoleAudit log.dir retentionDays now
    ⟨dir,log.rows.filter fun row => row.1 ∈ dir.keys,log.written⟩

def Log.run (log : Log) (events : List Event) : Log := events.foldl (Log.step arithmetic sha256) log

/-- The rows whose append returned are the lines of their files, and the chain verifies with as many rows. -/
structure Log.Intact (log : Log) : Prop where
  lines : ∀ file ∈ monthFiles log.dir, fileLines (log.dir.listing.file file) = rowsOf log.rows file
  kept : ∀ row ∈ log.rows, row.1 ∈ monthFiles log.dir
  verified : ∀ withLast, ∃ startsAt unknown, (verifyConsoleAudit sha256 log.dir.listing withLast).1 =
    (.intact log.rows.length startsAt unknown : Report arithmetic)

/-- The rows whose append returned are the first lines of their files, and every append throws. -/
structure Log.Damaged (log : Log) : Prop where
  lines : ∀ file ∈ monthFiles log.dir, ∃ torn, fileLines (log.dir.listing.file file) = rowsOf log.rows file ++ torn
  kept : ∀ row ∈ log.rows, row.1 ∈ monthFiles log.dir
  refused : ∀ input now, ∃ thrown, append arithmetic sha256 log.dir input now = .error thrown

/-- No crash leaves a whole row without its line's end, and no reaper takes a file behind one that it leaves. -/
def Gentle (log : Log) : Event → Prop
  | .append _ _ => True
  | .crash _ _ lost => lost ≠ 0
  | .reap retentionDays now => Orderly log.dir retentionDays now

/-- Besides, where a row can be written and there is none yet, the clock's year has four digits. -/
def Careful (log : Log) : Event → Prop
  | .append input now => (∃ body, @auditRowBody arithmetic input = .ok body) → (Clock.isoInstant now).isSome = true →
      Dated log.dir now
  | event => Gentle log event

def AllAlong (holds : Log → Event → Prop) : Log → List Event → Prop
  | _,[] => True
  | log,event :: events => holds log event ∧ AllAlong holds (log.step arithmetic sha256 event) events

end Running

section Preserved
variable {arithmetic : Arithmetic} {sha256 : Text → Text} {log : Log}
  {torn : Option (String × List UInt8)}

/-- The rows that the walk can meet. -/
def chained (rows : List (String × Text)) : List (String × Text) := rows.filter fun row => isMonthFile row.1

private theorem chained_append (rows : List (String × Text)) (row : String × Text) :
    chained (rows ++ [row]) = if isMonthFile row.1 = true then chained rows ++ [row] else chained rows := by
  unfold chained
  rw [List.filter_append,List.filter_singleton]
  split
  next month => rw [month]; rfl
  next other => rw [Bool.not_eq_true _ |>.mp other]; exact List.append_nil _

/-- What a directory is like between two events. -/
structure Standing (arithmetic : Arithmetic) (sha256 : Text → Text) (log : Log) (torn : Option (String × List UInt8)) : Prop where
  stands : Stands arithmetic sha256 log.dir (chained log.rows) torn
  present : ∀ row ∈ log.rows, row.1 ∈ log.dir.keys

private theorem set_keys (dir : Directory) {file other : String} (own : AuditFile) (held : other = file ∨ other ∈ dir.keys) :
    other ∈ (dir.set file own).keys := by
  by_cases present : file ∈ dir.keys
  · rw [dir.keys_set_present own present]
    rcases held with rfl | held
    · exact present
    · exact held
  · rw [dir.keys_set_absent own present,List.mem_append,List.mem_singleton]
    exact held.symm

theorem Standing.append (digest : ∀ text, isDigest (Utf16.ofText (sha256 text)) = true)
    (standing : Standing arithmetic sha256 log torn) {input : Input} {now : Int} {row : String × Text}
    (found : appended arithmetic sha256 log.dir input now = .ok row) :
    Standing arithmetic sha256 (log.step arithmetic sha256 (.append input now)) none := by
  obtain ⟨rfl,fits,behind,last,_⟩ := appended_row digest standing.stands found
  unfold Log.step
  dsimp only
  rw [found]
  refine ⟨?_,?_⟩
  · dsimp only
    rw [chained_append]
    split
    next month => exact standing.stands.appended now month fits last behind
    next other => exact standing.stands.aside (Bool.not_eq_true _ |>.mp other) _
  · intro own inside
    refine set_keys log.dir _ ?_
    rcases List.mem_append.mp inside with before | last
    · exact .inr (standing.present own before)
    · exact .inl (congrArg Prod.fst (List.mem_singleton.mp last))

theorem Standing.crash (digest : ∀ text, isDigest (Utf16.ofText (sha256 text)) = true)
    (standing : Standing arithmetic sha256 log torn) (input : Input) (now : Int) {lost : Nat}
    (some' : lost ≠ 0) : ∃ torn', Standing arithmetic sha256 (log.step arithmetic sha256 (.crash input now lost)) torn' := by
  unfold Log.step
  dsimp only
  split
  · exact ⟨torn,standing⟩
  next row found =>
    obtain ⟨rfl,fits,behind,_,_⟩ := appended_row digest standing.stands found
    have present : ∀ own ∈ log.rows, own.1 ∈ (crashed log.dir row.1
        ((Octets.utf8 row.2).take ((Octets.utf8 row.2).length - lost)) now).keys := by
      intro own inside
      unfold crashed
      split
      · exact standing.present own inside
      · exact set_keys log.dir _ (.inr (standing.present own inside))
    rcases Nat.eq_zero_or_pos ((Octets.utf8 row.2).length - lost) with nothing | positive
    · refine ⟨none,?_,present⟩
      dsimp only
      rw [nothing,List.take_zero,crashed]
      split
      · exact standing.stands
      next fresh =>
        have absent : row.1 ∉ log.dir.keys := fun held => fresh ⟨rfl,held⟩
        have empty : contentOf log.dir row.1 = [] := by
          unfold contentOf
          rw [(log.dir.get?_eq_none_iff row.1).mpr absent]
          rfl
        unfold appendFile
        rw [empty]
        exact standing.stands.begun absent now
    · have within : (Octets.utf8 row.2).length - lost < (Octets.utf8 row.2).length := by omega
      have fragment : Fragment arithmetic ((Octets.utf8 row.2).take ((Octets.utf8 row.2).length - lost)) :=
        ⟨row.2,_,fits,positive,within,rfl⟩
      have shape : crashed log.dir row.1 ((Octets.utf8 row.2).take ((Octets.utf8 row.2).length - lost)) now =
          appendFile log.dir row.1 ((Octets.utf8 row.2).take ((Octets.utf8 row.2).length - lost)) now :=
        if_neg fun both => fragment.some' both.1
      cases month : isMonthFile row.1 with
      | true =>
        refine ⟨some (row.1,(Octets.utf8 row.2).take ((Octets.utf8 row.2).length - lost)),?_,present⟩
        dsimp only
        rw [shape]
        exact standing.stands.torn_off now month fragment behind
      | false =>
        refine ⟨none,?_,present⟩
        dsimp only
        rw [shape]
        exact standing.stands.aside month _

theorem Standing.reap (standing : Standing arithmetic sha256 log torn) {retentionDays : Nat} {now : Int}
    (orderly : Orderly log.dir retentionDays now) :
    Standing arithmetic sha256 (log.step arithmetic sha256 (.reap retentionDays now))
      (torn.filter fun own => survives log.dir retentionDays now own.1) := by
  refine ⟨?_,?_⟩
  · have reaped := standing.stands.reaped orderly
    have same : chained (log.rows.filter fun row => row.1 ∈ (reapConsoleAudit log.dir retentionDays now).keys) =
        (chained log.rows).filter fun row => survives log.dir retentionDays now row.1 := by
      unfold chained
      rw [List.filter_filter,List.filter_filter]
      refine List.filter_congr fun row inside => ?_
      rw [reap_keys]
      have held := standing.present row inside
      by_cases kept : survives log.dir retentionDays now row.1 = true
      · simp [kept,held]
      · simp [kept]
    unfold Log.step
    dsimp only
    rw [same]
    exact reaped
  · intro row inside
    exact of_decide_eq_true (List.mem_filter.mp inside).2

theorem Standing.step (digest : ∀ text, isDigest (Utf16.ofText (sha256 text)) = true)
    (standing : Standing arithmetic sha256 log torn) {event : Event} (gentle : Gentle log event) :
    ∃ torn', Standing arithmetic sha256 (log.step arithmetic sha256 event) torn' := by
  cases event with
  | append input now =>
    cases found : appended arithmetic sha256 log.dir input now with
    | error thrown =>
      unfold Log.step
      dsimp only
      rw [found]
      exact ⟨torn,standing⟩
    | ok row => exact ⟨none,standing.append digest found⟩
  | crash input now lost => exact standing.crash digest input now gentle
  | reap retentionDays now => exact ⟨_,standing.reap gentle⟩

theorem Standing.start : Standing arithmetic sha256 .none none := by
  refine ⟨⟨?_,?_,List.Pairwise.nil,?_,?_,none,rfl⟩,?_⟩
  · exact fun _ inside => absurd inside List.not_mem_nil
  · exact fun _ inside => absurd inside List.not_mem_nil
  · intro file inside
    exact absurd (monthFiles_mem.mp inside).2 List.not_mem_nil
  · intro file bytes held
    cases held
  · exact fun _ inside => absurd inside List.not_mem_nil

end Preserved

section Samples

private theorem decimal_back (number : Nat) : Nat.ofDigitChars 10 (decimal number) 0 = number :=
  Nat.ofDigitChars_toDigits (by decide) (by decide)

/-- Numbers as their decimal texts. -/
def plain : Arithmetic where
  Value := Text
  ofNat := decimal
  read token := token
  write token := token
  safe? token :=
    let number := Nat.ofDigitChars 10 token 0
    if token = decimal number ∧ number ≤ Kernel.maxSafeInteger then some number else none
  isInteger token := token = decimal (Nat.ofDigitChars 10 token 0)
  atLeastOne token := 1 ≤ Nat.ofDigitChars 10 token 0
  next token := decimal (oneMore (Nat.ofDigitChars 10 token 0))
  same left right := left = right
  text token := token
  read_decimal _ _ := rfl
  write_ofNat _ _ := rfl
  safe_ofNat number safe := by
    dsimp only
    rw [decimal_back,if_pos ⟨rfl,safe⟩]
  read_counted := rfl
  write_counted := rfl
  isInteger_ofNat number _ := by
    rw [decimal_back]
    exact decide_eq_true rfl
  atLeastOne_ofNat number _ := by rw [decimal_back]
  next_ofNat number _ := by rw [decimal_back]
  same_ofNat _ _ := decide_eq_true rfl

def login : Input where
  actor := ⟨word "owner",word "operator",none⟩
  action := word "login"
  outcome := word "ok"
  kind := none
  target := none
  reason := none
  reserve := none
  count := none
  beforeDigest := none
  afterDigest := none
  ticket := none
  driver := none

/-- The digests of the rows below, by their instants. -/
def digests : List (Int × Nat) :=
  [(1782864000000,0x28ba2e522e607fd1d6c0879d7a0c9ecdfe0cfd14f481c3c47c71a60bf3c000ba),
    (1782864060000,0xc3d9b4092291adc9842ae4d4f9344dbeccf76f3ea5a70530ddc4d4614f922d68),
    (1782864120000,0x6fab1c08bc2bbc74a3c0ab4f1bfe2c033ce51b273be161bb49e3483f231fda3b),
    (1782864061000,0x25f55168df5fb953ffb28db80acc09e67901b92e0a3970ed7083fc0311f122ea),
    (1785456000000,0xd876133f35271f61e12dfc78ef7b6cdcdc215ca8cdadd41ccd7de7c13cb9dcc6),
    (1785542400000,0xac318fe0076e109903ccd4db0ee97248678e8a04a01376bd2641548bba44cad7),
    (1780272000000,0x43d4fd5003bc461c148b1107024a6b35139be40845687e99b99631853e4fcb10)]

def hexadecimal (digest : Nat) : Text :=
  List.replicate (64 - (Nat.toDigits 16 digest).length) '0' ++ Nat.toDigits 16 digest

def digestOf (line : Text) : Text :=
  match digests.find? fun known => Clock.isoInstant known.1 = some ((line.drop 7).take 24) with
  | some known => hexadecimal known.2
  | none => hexadecimal 0

private theorem digestOf_hex (line : Text) : isDigest (Utf16.ofText (digestOf line)) = true := by
  have known : ∀ digest ∈ digests, isDigest (Utf16.ofText (hexadecimal digest.2)) = true := by decide +kernel
  unfold digestOf
  split
  next digest found => exact known digest (List.mem_of_find?_eq_some found)
  · decide +kernel

def Report.counted {arithmetic : Arithmetic} : Report arithmetic → Option Nat
  | .intact rows _ _ => some rows
  | .broken _ _ _ _ => none

end Samples

section Survival
variable {arithmetic : Arithmetic} {sha256 : Text → Text} {log : Log}
  {torn : Option (String × List UInt8)}

private theorem chained_all {rows : List (String × Text)} (months : ∀ row ∈ rows, isMonthFile row.1 = true) :
    chained rows = rows := List.filter_eq_self.mpr months

private theorem Standing.whole (standing : Standing arithmetic sha256 log none)
    (months : ∀ row ∈ log.rows, isMonthFile row.1 = true) : log.Intact arithmetic sha256 := by
  have stands := standing.stands
  rw [chained_all months] at stands
  refine ⟨?_,stands.placed,stands.intact⟩
  intro file inside
  rw [stands.lines inside]
  exact List.append_nil _

private theorem Standing.damaged {file : String} {bytes : List UInt8} (standing : Standing arithmetic sha256 log (some (file,bytes)))
    (months : ∀ row ∈ log.rows, isMonthFile row.1 = true) : log.Damaged arithmetic sha256 := by
  have stands := standing.stands
  rw [chained_all months] at stands
  refine ⟨fun file inside => ⟨_,stands.lines inside⟩,stands.placed,?_⟩
  intro input now
  obtain ⟨thrown,stuck⟩ := stands.no_head
  unfold ConsoleAudit.append appended
  cases @auditRowBody arithmetic input with
  | error thrown => exact ⟨thrown,rfl⟩
  | ok body =>
    dsimp only
    rw [stuck]
    exact ⟨thrown,rfl⟩

/-- Careful appends go to month files. -/
private theorem careful_month (digest : ∀ text, isDigest (Utf16.ofText (sha256 text)) = true)
    (standing : Standing arithmetic sha256 log torn)
    {input : Input} {now : Int} {row : String × Text}
    (careful : Careful arithmetic log (.append input now))
    (found : appended arithmetic sha256 log.dir input now = .ok row) : isMonthFile row.1 = true := by
  refine (appended_row digest standing.stands found).2.2.2.2 (.inl (careful ?_ ?_))
  · unfold appended at found
    split at found
    · cases found
    next body valid => exact ⟨body,valid⟩
  · unfold appended at found
    split at found
    · cases found
    split at found
    · cases found
    split at found
    · cases found
    next at' instant =>
      rw [instant]
      rfl

private theorem careful_gentle {event : Event} (careful : Careful arithmetic log event) : Gentle log event := by
  cases event with
  | append => trivial
  | crash => exact careful
  | reap => exact careful

private theorem careful_months (digest : ∀ text, isDigest (Utf16.ofText (sha256 text)) = true)
    (standing : Standing arithmetic sha256 log torn)
    (months : ∀ row ∈ log.rows, isMonthFile row.1 = true) {event : Event} (careful : Careful arithmetic log event) :
    ∀ row ∈ (log.step arithmetic sha256 event).rows, isMonthFile row.1 = true := by
  cases event with
  | append input now =>
    unfold Log.step
    dsimp only
    split
    · exact months
    next own found =>
      intro row inside
      rcases List.mem_append.mp inside with before | last
      · exact months row before
      · rw [List.mem_singleton.mp last]
        exact careful_month digest standing careful found
  | crash input now lost =>
    unfold Log.step
    dsimp only
    split
    · exact months
    · exact months
  | reap retentionDays now => exact fun row inside => months row (List.mem_filter.mp inside).1

/-- Along a careful run the directory stands, every row in a month file. -/
private theorem careful_run (digest : ∀ text, isDigest (Utf16.ofText (sha256 text)) = true)
    (events : List Event) (standing : Standing arithmetic sha256 log torn)
    (months : ∀ row ∈ log.rows, isMonthFile row.1 = true)
    (careful : AllAlong arithmetic sha256 (Careful arithmetic) log events) :
    (∃ torn', Standing arithmetic sha256 (log.run arithmetic sha256 events) torn') ∧
      ∀ row ∈ (log.run arithmetic sha256 events).rows, isMonthFile row.1 = true := by
  induction events generalizing log torn with
  | nil => exact ⟨⟨torn,standing⟩,months⟩
  | cons event events ih =>
    obtain ⟨torn',standing'⟩ := standing.step digest (careful_gentle careful.1)
    exact ih standing' (careful_months digest standing months careful.1) careful.2

/-- In every state of a careful run the rows whose append returned are lines of their own, and the chain verifies with exactly
these rows or every append throws; and an append that returns leaves a chain that verifies. -/
theorem appends_survive (digest : ∀ text, isDigest (Utf16.ofText (sha256 text)) = true) (events : List Event)
    (careful : AllAlong arithmetic sha256 (Careful arithmetic) .none events) :
    let log := Log.none.run arithmetic sha256 events
    (log.Intact arithmetic sha256 ∨ log.Damaged arithmetic sha256) ∧
      ∀ input now dir, Careful arithmetic log (.append input now) → append arithmetic sha256 log.dir input now = .ok dir →
        let next := log.step arithmetic sha256 (.append input now)
        next.dir = dir ∧ (∃ row, next.rows = log.rows ++ [row]) ∧ next.Intact arithmetic sha256 := by
  intro log
  obtain ⟨⟨torn,standing⟩,months⟩ := careful_run digest events .start (fun _ inside => absurd inside List.not_mem_nil) careful
  refine ⟨?_,?_⟩
  · cases torn with
    | none => exact .inl (standing.whole months)
    | some own => exact .inr (standing.damaged months)
  · intro input now dir careful' returned
    unfold ConsoleAudit.append at returned
    cases found : appended arithmetic sha256 log.dir input now with
    | error thrown =>
      rw [found] at returned
      cases returned
    | ok row =>
      rw [found] at returned
      cases returned
      have next := standing.append digest found
      have months' := careful_months digest standing months careful'
      refine ⟨?_,⟨row,?_⟩,next.whole months'⟩
      · unfold Log.step
        dsimp only
        rw [found]
      · unfold Log.step
        dsimp only
        rw [found]

theorem appends_survive_a_tear :
    let log := Log.none.run plain digestOf [.append login 1782864000000,.reap 45 1782864030000]
    (log.Intact plain digestOf ∨ log.Damaged plain digestOf) ∧
      (log.step plain digestOf (.append login 1782864060000)).Intact plain digestOf ∧
      let torn := Log.none.run plain digestOf [.append login 1782864000000,.reap 45 1782864030000,.crash login 1782864060000 30]
      torn.Intact plain digestOf ∨ torn.Damaged plain digestOf := by
  have reap : Orderly (Log.none.run plain digestOf [.append login 1782864000000]).dir 45 1782864030000 := by
    unfold Orderly
    decide +kernel
  have first := appends_survive digestOf_hex [.append login 1782864000000,.reap 45 1782864030000]
    ⟨fun _ _ _ => by decide,reap,trivial⟩
  have torn := appends_survive digestOf_hex [.append login 1782864000000,.reap 45 1782864030000,.crash login 1782864060000 30]
    ⟨fun _ _ _ => by decide,reap,show 30 ≠ 0 by decide,trivial⟩
  have next := first.2 login 1782864060000 _ (fun _ _ _ => by decide) (show append plain digestOf _ login 1782864060000 =
    .ok ((Log.none.run plain digestOf [.append login 1782864000000,.reap 45 1782864030000]).step plain digestOf
      (.append login 1782864060000)).dir by decide +kernel)
  exact ⟨first.1,next.2.2,torn.1⟩

/-- A row is left without its line's end, and the next append returns: its row is no line of its own, and the chain is broken. -/
theorem row_after_whole_crash :
    let log := Log.none.run plain digestOf [.append login 1782864000000,.crash login 1782864060000 0,.append login 1782864120000]
    log.rows.map (fun row => decide (row.2 ∈ fileLines (log.dir.listing.file row.1))) = [true,false] ∧
      (verifyConsoleAudit digestOf log.dir.listing false : Report plain × _).1.counted = none := by decide +kernel

end Survival

section Retention
variable {arithmetic : Arithmetic} {sha256 : Text → Text} {log : Log} {torn : Option (String × List UInt8)}

def Event.isCrash : Event → Bool
  | .crash _ _ _ => true
  | _ => false

/-- The files that are left are the last that were written, and each holds rows. -/
private structure Suffixed (log : Log) : Prop where
  suffix : monthFiles log.dir <:+ sortTexts log.written
  filled : ∀ file ∈ monthFiles log.dir, contentOf log.dir file ≠ []
  newest : monthFiles log.dir = [] → log.written = []

private theorem months_kept (dir : Directory) {file : String} (own : AuditFile)
    (known : isMonthFile file = false ∨ file ∈ dir.keys) : monthFiles (dir.set file own) = monthFiles dir := by
  by_cases present : file ∈ dir.keys
  · unfold monthFiles
    rw [dir.keys_set_present own present]
  · unfold monthFiles
    rw [dir.keys_set_absent own present,List.filter_append,List.filter_cons_of_neg,List.filter_nil,List.append_nil]
    rw [known.resolve_right present]
    exact Bool.false_ne_true

/-- A text behind all the others goes last. -/
private theorem sorted_last {texts : List String} {text : String} (fresh : text ∉ texts)
    (behind : ∀ other ∈ texts, notAfter other text = true) : sortTexts (texts ++ [text]) = sortTexts texts ++ [text] := by
  obtain ⟨before,after,shape,placed,_,beyond⟩ := sortTexts_snoc texts text
  have none : after = [] := by
    refine List.eq_nil_iff_forall_not_mem.mpr fun other inside => fresh ?_
    have among : other ∈ texts := by
      rw [← (sortTexts_perm texts).mem_iff,shape]
      exact List.mem_append_right _ inside
    rw [notAfter_antisymm (beyond other inside) (behind other among)]
    exact among
  rw [placed,shape,none,List.append_nil]

private theorem Suffixed.append (digest : ∀ text, isDigest (Utf16.ofText (sha256 text)) = true) (suffixed : Suffixed log)
    (standing : Standing arithmetic sha256 log none) {input : Input} {now : Int} :
    Suffixed (log.step arithmetic sha256 (.append input now)) := by
  unfold Log.step
  dsimp only
  split
  · exact suffixed
  next row found =>
    obtain ⟨_,_,behind,_,_⟩ := appended_row digest standing.stands found
    have others : ∀ other ∈ monthFiles log.dir, notAfter other row.1 = true := by
      intro other inside
      have filled := suffixed.filled other inside
      rw [standing.stands.content other inside,leftIn,List.append_nil] at filled
      obtain ⟨own,among⟩ := List.exists_mem_of_ne_nil _ (fun none => filled (by rw [none]; rfl) : rowsOf _ other ≠ [])
      obtain ⟨entry,held,_⟩ := List.mem_map.mp among
      obtain ⟨held,same⟩ := List.mem_filter.mp held
      rw [← of_decide_eq_true same]
      exact behind entry held
    have content : ∀ other ∈ monthFiles (appendFile log.dir row.1 (Octets.utf8 row.2 ++ [Utf8.newline]) now),
        contentOf (appendFile log.dir row.1 (Octets.utf8 row.2 ++ [Utf8.newline]) now) other ≠ [] := by
      intro other inside
      unfold appendFile at inside ⊢
      rw [contentOf_set]
      split
      · simp
      next apart =>
        exact suffixed.filled other (((monthFiles_set log.dir row.1 _).mp inside).resolve_right fun both => apart both.1.symm)
    by_cases known : isMonthFile row.1 = false ∨ row.1 ∈ log.dir.keys
    · have same := months_kept log.dir ⟨contentOf log.dir row.1 ++ (Octets.utf8 row.2 ++ [Utf8.newline]),now⟩ known
      have old : noted log.written row.1 = log.written := by
        refine if_neg ?_
        rintro ⟨month,fresh⟩
        have present := known.resolve_left (by rw [month]; exact Bool.noConfusion)
        exact fresh ((sortTexts_perm _).mem_iff.mp (suffixed.suffix.subset (monthFiles_mem.mpr ⟨month,present⟩)))
      rw [old]
      refine ⟨?_,content,?_⟩
      · exact same.symm ▸ suffixed.suffix
      · intro empty
        exact suffixed.newest (same.symm.trans empty)
    · rw [not_or] at known
      have month : isMonthFile row.1 = true := Bool.not_eq_false _ |>.mp known.1
      have fresh : row.1 ∉ monthFiles log.dir := fun inside => known.2 (monthFiles_mem.mp inside).2
      have months : monthFiles (appendFile log.dir row.1 (Octets.utf8 row.2 ++ [Utf8.newline]) now) =
          monthFiles log.dir ++ [row.1] := by
        unfold appendFile monthFiles
        rw [log.dir.keys_set_absent _ known.2,List.filter_append,List.filter_cons_of_pos month,List.filter_nil]
        refine sorted_last (fun inside => known.2 (List.mem_filter.mp inside).1) fun other inside => others other ?_
        exact (sortTexts_perm _).mem_iff.mpr inside
      obtain ⟨gone,shape⟩ := suffixed.suffix
      have all : ∀ other ∈ log.written, notAfter other row.1 = true ∧ other ≠ row.1 := by
        intro other inside
        have among : other ∈ gone ++ monthFiles log.dir := by
          rw [shape]
          exact (sortTexts_perm _).mem_iff.mpr inside
        have sorted := sortTexts_sorted log.written
        rw [← shape] at sorted
        cases files : monthFiles log.dir with
        | nil =>
          rw [suffixed.newest files] at inside
          cases inside
        | cons file rest =>
          have held : file ∈ monthFiles log.dir := by
            rw [files]
            exact List.mem_cons_self
          rcases List.mem_append.mp among with early | kept
          · have order := (List.pairwise_append.mp sorted).2.2 other early file held
            refine ⟨notAfter_trans order (others file held),?_⟩
            rintro rfl
            exact fresh (notAfter_antisymm (others file held) order ▸ held)
          · refine ⟨others other kept,?_⟩
            rintro rfl
            exact fresh kept
      have unknown : row.1 ∉ log.written := fun inside => (all row.1 inside).2 rfl
      have written : noted log.written row.1 = log.written ++ [row.1] := if_pos ⟨month,unknown⟩
      refine ⟨?_,content,?_⟩
      · dsimp only
        rw [months,written,sorted_last unknown fun other inside => (all other inside).1]
        exact ⟨gone,by rw [← shape,List.append_assoc]⟩
      · intro empty
        dsimp only at empty
        rw [months] at empty
        exact absurd (List.append_eq_nil_iff.mp empty).2 (List.cons_ne_nil _ _)

private theorem Suffixed.reap (suffixed : Suffixed log) {retentionDays : Nat} {now : Int}
    (orderly : Orderly log.dir retentionDays now) :
    Suffixed (log.step arithmetic sha256 (.reap retentionDays now)) := by
  have lasting : (monthFiles log.dir).Pairwise fun earlier later =>
      survives log.dir retentionDays now earlier = true → survives log.dir retentionDays now later = true := by
    refine (monthFiles_sorted log.dir).imp_of_mem ?_
    intro earlier later inside inside' order kept
    exact survives_lasting orderly inside order (suffixed.filled earlier inside) (suffixed.filled later inside') kept
  have months := reap_months log.dir retentionDays now
  refine ⟨?_,?_,?_⟩
  · refine List.IsSuffix.trans ?_ suffixed.suffix
    change monthFiles (reapConsoleAudit log.dir retentionDays now) <:+ _
    rw [months]
    exact ⟨_,filter_split lasting⟩
  · intro file inside
    change contentOf (reapConsoleAudit log.dir retentionDays now) file ≠ []
    change file ∈ monthFiles (reapConsoleAudit log.dir retentionDays now) at inside
    rw [months] at inside
    obtain ⟨among,kept⟩ := List.mem_filter.mp inside
    rw [reap_content _ _ _ kept]
    exact suffixed.filled file among
  · intro empty
    change monthFiles (reapConsoleAudit log.dir retentionDays now) = [] at empty
    rw [months] at empty
    refine suffixed.newest ?_
    by_contra some'
    have shape := List.dropLast_append_getLast some'
    have distinct := monthFiles_nodup log.dir
    rw [← shape] at distinct
    have last : (monthFiles log.dir).getLast some' ∉ (monthFiles log.dir).dropLast := fun inside =>
      (List.nodup_append.mp distinct).2.2 _ inside _ List.mem_cons_self rfl
    refine List.filter_eq_nil_iff.mp empty _ (List.getLast_mem some') ?_
    unfold survives
    rw [decide_eq_false last,Bool.false_and,Bool.not_false,Bool.or_true]

private theorem orderly_run (digest : ∀ text, isDigest (Utf16.ofText (sha256 text)) = true) (events : List Event)
    (alive : ∀ event ∈ events, event.isCrash = false) (suffixed : Suffixed log)
    (standing : Standing arithmetic sha256 log none) (orderly : AllAlong arithmetic sha256 Gentle log events) :
    Suffixed (log.run arithmetic sha256 events) ∧ Standing arithmetic sha256 (log.run arithmetic sha256 events) none := by
  induction events generalizing log with
  | nil => exact ⟨suffixed,standing⟩
  | cons event events ih =>
    refine ih (fun other inside => alive other (List.mem_cons_of_mem _ inside)) ?_ ?_ orderly.2
    · cases event with
      | append input now => exact suffixed.append digest standing
      | crash input now lost => cases alive (.crash input now lost) List.mem_cons_self
      | reap retentionDays now => exact suffixed.reap orderly.1
    · cases event with
      | append input now =>
        cases found : appended arithmetic sha256 log.dir input now with
        | error thrown =>
          unfold Log.step
          dsimp only
          rw [found]
          exact standing
        | ok row => exact standing.append digest found
      | crash input now lost => cases alive (.crash input now lost) List.mem_cons_self
      | reap retentionDays now => exact standing.reap orderly.1

/-- Without crashes, and with reapers that take no file behind one they leave, the files that are left are the last that were
written, and the chain never shows as broken. -/
theorem retention_keeps_chain (digest : ∀ text, isDigest (Utf16.ofText (sha256 text)) = true) (events : List Event)
    (alive : ∀ event ∈ events, event.isCrash = false) (orderly : AllAlong arithmetic sha256 Gentle .none events) :
    let log := Log.none.run arithmetic sha256 events
    monthFiles log.dir <:+ sortTexts log.written ∧
      ∀ withLast, ∃ rows startsAt unknown, (verifyConsoleAudit sha256 log.dir.listing withLast).1 =
        (.intact rows startsAt unknown : Report arithmetic) := by
  have start : Suffixed .none :=
    ⟨List.nil_suffix,fun file inside => absurd (monthFiles_mem.mp inside).2 List.not_mem_nil,fun _ => rfl⟩
  obtain ⟨suffixed,standing⟩ := orderly_run digest events alive start .start orderly
  exact ⟨suffixed.suffix,fun withLast => ⟨_,standing.stands.intact withLast⟩⟩

theorem retention_keeps_chain_of_two :
    let log := Log.none.run plain digestOf [.append login 1785456000000,.append login 1785542400000,.reap 1 1785715200000]
    monthFiles log.dir <:+ sortTexts log.written ∧
      ∀ withLast, ∃ rows startsAt unknown, (verifyConsoleAudit digestOf log.dir.listing withLast).1 =
        (.intact rows startsAt unknown : Report plain) :=
  retention_keeps_chain digestOf_hex [.append login 1785456000000,.append login 1785542400000,.reap 1 1785715200000]
    (by simp [Event.isCrash]) ⟨trivial,trivial,by unfold Gentle Orderly; decide +kernel,trivial⟩

/-- The clock steps back after a file was begun, and the file between two others is taken. -/
theorem middle_file_reaped :
    let log := Log.none.run plain digestOf [.append login 1785456000000,.append login 1785542400000,.append login 1780272000000,
      .append login 1788220800000,.reap 45 1788307200000]
    monthFiles log.dir = ["2026-07.jsonl","2026-09.jsonl"] ∧
      log.written = ["2026-07.jsonl","2026-08.jsonl","2026-09.jsonl"] ∧
      (verifyConsoleAudit digestOf log.dir.listing false : Report plain × _).1.counted = none := by decide +kernel

end Retention

end PiDispatch.ConsoleAudit
