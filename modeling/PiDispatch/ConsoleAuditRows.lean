import PiDispatch.Kernel.JsonBalance
import PiDispatch.ConsoleAudit

/-! The rows that the audit's append writes: how they are read back, how long they are, and what a file of them gives to its
readers; and chains of lines, each judged after the one before it. -/
namespace PiDispatch.ConsoleAudit
open Kernel JsonText

section Chains
variable {arithmetic : Arithmetic} (sha256 : Text → Text)

/-- The last row that passed, where every line passes. -/
def chain : Option (Prior arithmetic) → List Text → Option (Option (Prior arithmetic))
  | prior,[] => some prior
  | prior,line :: lines => match judge prior line with
    | .error _ => none
    | .ok passed => chain (some ⟨passed.seq,sha256 line⟩) lines

variable {sha256}

theorem chain_append (prior : Option (Prior arithmetic)) (first second : List Text) :
    chain sha256 prior (first ++ second) = (chain sha256 prior first).bind fun middle => chain sha256 middle second := by
  induction first generalizing prior with
  | nil => rfl
  | cons line first ih =>
    rw [List.cons_append,chain,chain]
    split
    · rfl
    · exact ih _

/-- What passes after a row passes as a first row. -/
theorem judge_first {prior : Prior arithmetic} {line : Text} {passed : Passed arithmetic}
    (found : judge (some prior) line = .ok passed) : ∃ first, judge none line = .ok first ∧ first.seq = passed.seq := by
  unfold judge at found ⊢
  dsimp only at found ⊢
  split at found
  · cases found
  next row parsed =>
    split at found
    · cases found
    next seq numbered =>
      split at found
      · cases found
      next shaped =>
        split at found
        · cases found
        next worded =>
          split at found
          · cases found
          next allowed driver =>
            split at found
            · cases found
            next driven =>
              split at found
              · cases found
              next formed =>
                split at found
                · cases found
                next linked =>
                  split at found
                  · cases found
                  · cases found
                    rw [if_neg shaped,if_neg worded]
                    simp only
                    rw [if_neg driven,if_neg formed]
                    have vouches : (textAt row "prev").isSome = true := by
                      have own : isLinked (some prior) (some row) = true := by
                        rw [← parsed]
                        exact not_not.mp linked
                      unfold isLinked at own
                      rw [Option.any_some] at own
                      unfold textAt
                      dsimp only [Option.bind_some] at own
                      split at own
                      next => rfl
                      · cases own
                    rw [if_pos vouches]
                    exact ⟨_,rfl,rfl⟩

/-- The later lines of a chain are a chain by themselves. -/
theorem chain_later {first second : List Text} {prior : Option (Prior arithmetic)} {last : Option (Prior arithmetic)}
    (whole : chain sha256 prior (first ++ second) = some last) (some' : second ≠ []) :
    chain sha256 none second = some last := by
  rw [chain_append] at whole
  obtain ⟨middle,_,later⟩ := Option.bind_eq_some_iff.mp whole
  cases second with
  | nil => exact absurd rfl some'
  | cons line lines =>
    cases middle with
    | none => exact later
    | some prior =>
      rw [chain] at later ⊢
      split at later
      · cases later
      next passed found =>
        obtain ⟨own,same,seq⟩ := judge_first found
        rw [same]
        dsimp only
        rwa [seq]

/-- A walk over lines that are a chain goes through. -/
theorem walkLines_chain (file : String) {walk : Walk arithmetic} (read : Nat) {lines : List Text}
    {last : Option (Prior arithmetic)} (whole : chain sha256 walk.prior lines = some last) :
    ∃ next, walkLines sha256 file walk read lines = (next,none) ∧ next.prior = last ∧
      next.rows = walk.rows + lines.length := by
  induction lines generalizing walk read with
  | nil => exact ⟨walk,rfl,Option.some.inj whole,rfl⟩
  | cons line lines ih =>
    rw [chain] at whole
    split at whole
    · cases whole
    next passed found =>
      obtain ⟨next,through,prior,rows⟩ := @ih (walk.pass file (read + 1) (sha256 line) passed) (read + 1) whole
      refine ⟨next,?_,prior,?_⟩
      · rw [walkLines,found]
        exact through
      · rw [rows,List.length_cons]
        change walk.rows + 1 + lines.length = _
        omega

theorem walkFiles_chain (listing : Listing) {walk : Walk arithmetic} {files : List String}
    {last : Option (Prior arithmetic)} (readable : ∀ file ∈ files, (listing.file file).fault = none)
    (whole : chain sha256 walk.prior (files.flatMap fun file => fileLines (listing.file file)) = some last) :
    ∃ next, walkFiles sha256 listing walk files = (next,none) ∧
      next.rows = walk.rows + (files.flatMap fun file => fileLines (listing.file file)).length := by
  induction files generalizing walk with
  | nil => exact ⟨walk,rfl,rfl⟩
  | cons file files ih =>
    rw [List.flatMap_cons,chain_append] at whole
    obtain ⟨middle,here,later⟩ := Option.bind_eq_some_iff.mp whole
    obtain ⟨next,through,prior,rows⟩ := walkLines_chain file 0 here
    subst prior
    obtain ⟨last,rest,counted⟩ := ih (fun other member => readable other (List.mem_cons_of_mem _ member)) later
    refine ⟨last,?_,?_⟩
    · rw [walkFiles]
      rw [through]
      dsimp only
      rw [readable file List.mem_cons_self]
      exact rest
    · rw [counted,rows,List.flatMap_cons,List.length_append]
      omega

end Chains

section Words

theorem word_inj {left right : String} : word left = word right ↔ left = right := Utf16.spell_inj

private theorem points_length (text : Units) : (Utf16.points text).length ≤ text.length := by
  induction text using Utf16.points.induct with
  | case1 => exact le_rfl
  | case2 unit => exact le_rfl
  | case3 high low rest pair ih =>
    rw [Utf16.points,if_pos pair]
    simp only [List.length_cons] at ih ⊢
    omega
  | case4 high low rest apart ih =>
    rw [Utf16.points,if_neg apart]
    simp only [List.length_cons] at ih ⊢
    omega

private theorem units_length (list : List Utf16.Point) : (list.flatMap Utf16.Point.units).length ≤ 2 * list.length := by
  induction list with
  | nil => exact Nat.zero_le _
  | cons point list ih =>
    have own : point.units.length ≤ 2 := by
      cases point with
      | lone unit => exact (by decide : 1 ≤ 2)
      | scalar letter =>
        change (Utf16.unitsOf letter).length ≤ 2
        unfold Utf16.unitsOf
        split <;> simp
    rw [List.flatMap_cons,List.length_append,List.length_cons]
    omega

/-- A string's bytes in a row, by its units. -/
private theorem string_bytes {text : Units} {most : Nat} (short : text.length ≤ most) :
    (Octets.utf8 (quoted text)).length ≤ 6 * most + 2 := by
  have bytes := quoted_bytes text
  have points := points_length text
  omega

private theorem auditString_bytes (text : Units) : (Octets.utf8 (quoted (auditString text))).length ≤ 2402 := by
  have cap : CONSOLE_AUDIT_FIELD_MAX = 200 := rfl
  have units := units_length ((Utf16.points (escapeControls text)).take CONSOLE_AUDIT_FIELD_MAX)
  have taken := List.length_take_le CONSOLE_AUDIT_FIELD_MAX (Utf16.points (escapeControls text))
  exact @string_bytes (auditString text) 400 (by unfold auditString; omega)

end Words

section Bodies
variable {arithmetic : Arithmetic} {input : Input} {body : List (Units × Document arithmetic)}

/-- What the append has checked of a row. -/
structure Checked (input : Input) (driver : Option (List (Units × Document arithmetic))) : Prop where
  action : isListed CONSOLE_AUDIT_ACTIONS input.action = true
  outcome : isListed CONSOLE_AUDIT_OUTCOMES input.outcome = true
  kind : ∀ kind ∈ input.kind, isKind kind = true
  reserve : ∀ own ∈ input.reserve, 0 ≤ own ∧ own ≤ (Kernel.maxSafeInteger : Int)
  count : ∀ own ∈ input.count, 1 ≤ own ∧ own ≤ (Kernel.maxSafeInteger : Int)
  watched : input.kind.any (isListed WATCH_AUDIT_KINDS) = driver.isSome
  driver : ∀ members ∈ driver, consoleAuditDriver (.object members) = .ok (some members) ∧
    ∃ name role session, name.length ≤ 32 ∧ role = word "operator" ∧ session.length ≤ 12 ∧
      members = [(word "name",.string name),(word "role",.string role),(word "session",.string session)]

private theorem driver_own {driver : Driver} {members : List (Units × Document arithmetic)}
    (found : consoleAuditDriver driver.document = .ok (some members)) :
    consoleAuditDriver (.object members) = .ok (some members) ∧
      ∃ name role session, name.length ≤ 32 ∧ role = word "operator" ∧ session.length ≤ 12 ∧
        members = [(word "name",.string name),(word "role",.string role),(word "session",.string session)] := by
  have name : (driver.document : Document arithmetic).field? (word "name") = some (.string driver.name) := by
    simp [Driver.document,JsonValue.field?]
  have role : (driver.document : Document arithmetic).field? (word "role") = some (.string driver.role) := by
    simp [Driver.document,JsonValue.field?,word_inj]
  have session : (driver.document : Document arithmetic).field? (word "session") = some (.string driver.session) := by
    simp [Driver.document,JsonValue.field?,word_inj]
  have shape : members = [(word "name",.string driver.name),(word "role",.string driver.role),
      (word "session",.string driver.session)] ∧ isDriverName driver.name = true ∧ driver.role = word "operator" ∧
      isSession driver.session = true := by
    have read := found
    unfold consoleAuditDriver at read
    rw [name,role,session] at read
    unfold Driver.document at read
    simp only [tried,coerced,Option.getD_some] at read
    split at read
    · cases read
    split at read
    · cases read
    next named =>
      split at read
      · cases read
      next operator =>
        split at read
        · cases read
        next seated =>
          cases read
          exact ⟨rfl,not_not.mp named,not_not.mp operator,not_not.mp seated⟩
  obtain ⟨rfl,named,operator,seated⟩ := shape
  refine ⟨found,driver.name,driver.role,driver.session,?_,operator,?_,rfl⟩
  · cases own : driver.name with
    | nil => exact Nat.zero_le _
    | cons first rest =>
      rw [own] at named
      have short := of_decide_eq_true (Bool.and_eq_true_iff.mp (Bool.and_eq_true_iff.mp named).1).2
      exact Nat.succ_le_succ short
  · exact (of_decide_eq_true (Bool.and_eq_true_iff.mp seated).1).le

theorem auditRowBody_checked (ok : auditRowBody input = .ok body) :
    ∃ driver, body = storedBody input driver ∧ Checked input driver := by
  unfold auditRowBody at ok
  dsimp only at ok
  split at ok
  · cases ok
  next action =>
    split at ok
    · cases ok
    next outcome =>
      split at ok
      · cases ok
      next kind =>
        split at ok
        · cases ok
        next reserve =>
          split at ok
          · cases ok
          next count =>
            split at ok
            · cases ok
            next watched =>
              cases ok
              refine ⟨driverOf input,rfl,not_not.mp action,not_not.mp outcome,?_,?_,?_,?_,?_⟩
              · intro own held
                have all := not_not.mp kind
                rw [held] at all
                exact all
              · intro own held
                have all := not_not.mp reserve
                rw [held] at all
                exact of_decide_eq_true all
              · intro own held
                have all := not_not.mp count
                rw [held] at all
                exact of_decide_eq_true all
              · unfold misplaced at watched
                cases watch : input.kind.any (isListed WATCH_AUDIT_KINDS) with
                | true =>
                  rw [watch,if_pos rfl] at watched
                  cases found : @driverOf arithmetic input with
                  | none =>
                    rw [found] at watched
                    exact absurd rfl watched
                  | some members => rfl
                | false =>
                  rw [watch,if_neg Bool.false_ne_true] at watched
                  cases own : input.driver with
                  | none =>
                    unfold driverOf
                    rw [own]
                    rfl
                  | some driver =>
                    rw [own] at watched
                    exact absurd rfl watched
              · intro members held
                obtain ⟨driver,given,found⟩ := Option.bind_eq_some_iff.mp held
                split at found
                next same =>
                  subst found
                  exact driver_own same
                · cases found

/-- The members of a stored row: its instant, its number and the digest of the line before it come first. -/
def rowMembers (at' : Text) (seq : Nat) (prev : Option Text) (input : Input)
    (driver : Option (List (Units × Document arithmetic))) : List (Units × Document arithmetic) :=
  (word "at",.string (Utf16.ofText at')) :: (word "seq",.number (arithmetic.ofNat seq)) ::
    (word "prev",prevOf arithmetic prev) :: storedBody input driver

def ROW_KEYS : List String :=
  ["at","seq","prev","actor","action","kind","target","outcome","reason","reserve","count","beforeDigest","afterDigest",
    "ticket","driver"]

variable {at' : Text} {seq : Nat} {prev : Option Text} {driver : Option (List (Units × Document arithmetic))}

private theorem option_keys {α : Type} (name : String) (value : Option α) (wrap : α → Document arithmetic) :
    ((value.map fun own => (word name,wrap own)).toList.map Prod.fst).Sublist [word name] := by
  cases value with
  | none => exact List.nil_sublist _
  | some own => exact List.Sublist.refl _

theorem rowMembers_keys :
    ((rowMembers at' seq prev input driver).map Prod.fst).Sublist (ROW_KEYS.map word) := by
  have texts := fun name value => @option_keys arithmetic Units name value fun text => .string (auditString text)
  have numbers := fun name value => @option_keys arithmetic Int name value fun own => .number (arithmetic.ofNat own.toNat)
  have kinds := @option_keys arithmetic Units "kind" input.kind JsonValue.string
  have drivers := @option_keys arithmetic (List (Units × Document arithmetic)) "driver" driver JsonValue.object
  unfold rowMembers storedBody
  simp only [List.map_cons,List.map_append]
  refine .cons_cons _ (.cons_cons _ (.cons_cons _ (.cons_cons _ (.cons_cons _ ?_))))
  refine kinds.append ((texts _ _).append (.cons_cons _ ?_))
  exact (texts _ _).append ((numbers _ _).append ((numbers _ _).append ((texts _ _).append ((texts _ _).append
    ((texts _ _).append drivers)))))

private theorem keys_plain : ∀ key ∈ ROW_KEYS.map word, JsonValue.index? key = none := by decide

private theorem keys_distinct : (ROW_KEYS.map word).Nodup := by decide

private theorem object_written {members : List (Units × Document arithmetic)} {keys : List String}
    (each : ∀ member ∈ members, Written arithmetic.toNumbers member.2) (own : (members.map Prod.fst).Sublist (keys.map word))
    (plain : ∀ key ∈ keys.map word, JsonValue.index? key = none) (distinct : (keys.map word).Nodup) :
    Written arithmetic.toNumbers (.object members) :=
  .object members each (fun member inside => plain _ (own.subset (List.mem_map_of_mem inside))) (distinct.sublist own)

private theorem session_written (session : Option Units) :
    Written arithmetic.toNumbers (sessionOf session : Document arithmetic) := by
  cases session with
  | none => exact .null
  | some session => exact .string _

private theorem option_written {α : Type} {name : String} {value : Option α} {wrap : α → Document arithmetic}
    (own : ∀ held ∈ value, Written arithmetic.toNumbers (wrap held)) :
    ∀ member ∈ (value.map fun held => (word name,wrap held)).toList, Written arithmetic.toNumbers member.2 := by
  intro member inside
  obtain ⟨held,found,rfl⟩ := Option.map_eq_some_iff.mp (Option.mem_toList.mp inside)
  exact own held found

private theorem number_text {number : Nat} (few : number ≤ counted) :
    arithmetic.write (arithmetic.ofNat number) = decimal number ∧
      arithmetic.read (decimal number) = arithmetic.ofNat number := by
  rcases Nat.lt_or_ge Kernel.maxSafeInteger number with past | safe
  · obtain rfl : number = counted := Nat.le_antisymm few past
    exact ⟨arithmetic.write_counted,arithmetic.read_counted⟩
  · exact ⟨arithmetic.write_ofNat number safe,arithmetic.read_decimal number safe⟩

private theorem number_written {value : Option Int}
    (own : ∀ held ∈ value, 0 ≤ held ∧ held ≤ (Kernel.maxSafeInteger : Int)) :
    ∀ held ∈ value, Written arithmetic.toNumbers (.number (arithmetic.ofNat held.toNat)) := by
  intro held found
  obtain ⟨least,most⟩ := own held found
  have texts := @number_text arithmetic held.toNat (by unfold counted; omega)
  exact .number held.toNat texts.1 texts.2

theorem rowMembers_written (checked : Checked input driver) (few : seq ≤ counted) :
    ∀ member ∈ rowMembers at' seq prev input driver, Written arithmetic.toNumbers member.2 := by
  have three : ∀ name role session : Document arithmetic, Written arithmetic.toNumbers name →
      Written arithmetic.toNumbers role → Written arithmetic.toNumbers session → Written arithmetic.toNumbers
        (.object [(word "name",name),(word "role",role),(word "session",session)]) := by
    intro name role session one two three
    refine @object_written arithmetic _ ["name","role","session"] ?_ (List.Sublist.refl _) (by decide) (by decide)
    intro member inside
    simp only [List.mem_cons,List.not_mem_nil,or_false] at inside
    rcases inside with rfl | rfl | rfl
    · exact one
    · exact two
    · exact three
  have texts : ∀ name (value : Option Units), ∀ member ∈ (optional name value : List (Units × Document arithmetic)),
      Written arithmetic.toNumbers member.2 := fun name value => option_written fun _ _ => .string _
  intro member inside
  unfold rowMembers storedBody at inside
  simp only [List.mem_cons,List.mem_append] at inside
  rcases inside with rfl | rfl | rfl | rfl | rfl | kind | target | rfl | reason | reserve | count | before | after | ticket |
    own
  · exact .string _
  · exact .number seq (number_text few).1 (number_text few).2
  · cases prev with
    | none => exact .null
    | some hash => exact .string _
  · exact three _ _ _ (.string _) (.string _) (session_written _)
  · exact .string _
  · exact @option_written arithmetic _ _ _ JsonValue.string (fun _ _ => .string _) member kind
  · exact texts _ _ member target
  · exact .string _
  · exact texts _ _ member reason
  · exact option_written (number_written checked.reserve) member reserve
  · refine option_written (number_written fun own held => ?_) member count
    obtain ⟨least,most⟩ := checked.count own held
    omega
  · exact texts _ _ member before
  · exact texts _ _ member after
  · exact texts _ _ member ticket
  · refine @option_written arithmetic _ _ _ JsonValue.object (fun members held => ?_) member own
    obtain ⟨_,name,role,session,_,_,_,rfl⟩ := checked.driver members held
    exact three _ _ _ (.string _) (.string _) (.string _)

theorem row_written (checked : Checked input driver) (few : seq ≤ counted) :
    Written arithmetic.toNumbers (.object (rowMembers at' seq prev input driver)) :=
  object_written (rowMembers_written checked few) rowMembers_keys keys_plain keys_distinct

section Fields

private theorem find_option {α : Type} (name other : String) (value : Option α) (wrap : α → Document arithmetic) :
    (value.map fun own => (word name,wrap own)).toList.find? (fun member => member.1 = word other) =
      if name = other then value.map fun own => (word name,wrap own) else none := by
  cases value with
  | none => simp
  | some own =>
    by_cases same : name = other
    · simp [same]
    · simp [same,word_inj]

private theorem find_text (name other : String) (value : Option Units) :
    (optional name value : List (Units × Document arithmetic)).find? (fun member => member.1 = word other) =
      if name = other then value.map fun own => (word name,.string (auditString own)) else none :=
  find_option name other value _

private theorem find_number (name other : String) (value : Option Int) :
    (number name value : List (Units × Document arithmetic)).find? (fun member => member.1 = word other) =
      if name = other then value.map fun own => (word name,.number (arithmetic.ofNat own.toNat)) else none :=
  find_option name other value _

private theorem row_seq : (JsonValue.object (rowMembers at' seq prev input driver) : Document arithmetic).field? (word "seq") =
    some (.number (arithmetic.ofNat seq)) := by simp [JsonValue.field?,rowMembers,word_inj]

private theorem row_prev : (JsonValue.object (rowMembers at' seq prev input driver) : Document arithmetic).field? (word "prev") =
    some (prevOf arithmetic prev) := by simp [JsonValue.field?,rowMembers,word_inj]

private theorem row_action :
    (JsonValue.object (rowMembers at' seq prev input driver) : Document arithmetic).field? (word "action") =
      some (.string input.action) := by simp [JsonValue.field?,rowMembers,storedBody,word_inj]

private theorem row_outcome :
    (JsonValue.object (rowMembers at' seq prev input driver) : Document arithmetic).field? (word "outcome") =
      some (.string input.outcome) := by
  simp [JsonValue.field?,rowMembers,storedBody,word_inj,List.find?_append,find_option,find_text]

private theorem row_kind : (JsonValue.object (rowMembers at' seq prev input driver) : Document arithmetic).field? (word "kind") =
    input.kind.map JsonValue.string := by
  have kinds := @find_option arithmetic Units "kind" "kind" input.kind JsonValue.string
  have drivers := @find_option arithmetic _ "driver" "kind" driver JsonValue.object
  simp only [JsonValue.field?,rowMembers,storedBody,List.find?_cons,word_inj,List.find?_append,find_text,find_number,kinds,
    drivers]
  cases input.kind <;> simp

private theorem row_reserve :
    (JsonValue.object (rowMembers at' seq prev input driver) : Document arithmetic).field? (word "reserve") =
      input.reserve.map fun own => .number (arithmetic.ofNat own.toNat) := by
  have kinds := @find_option arithmetic Units "kind" "reserve" input.kind JsonValue.string
  have drivers := @find_option arithmetic _ "driver" "reserve" driver JsonValue.object
  simp only [JsonValue.field?,rowMembers,storedBody,List.find?_cons,word_inj,List.find?_append,find_text,find_number,kinds,
    drivers]
  cases input.reserve <;> simp

private theorem row_count : (JsonValue.object (rowMembers at' seq prev input driver) : Document arithmetic).field? (word "count") =
    input.count.map fun own => .number (arithmetic.ofNat own.toNat) := by
  have kinds := @find_option arithmetic Units "kind" "count" input.kind JsonValue.string
  have drivers := @find_option arithmetic _ "driver" "count" driver JsonValue.object
  simp only [JsonValue.field?,rowMembers,storedBody,List.find?_cons,word_inj,List.find?_append,find_text,find_number,kinds,
    drivers]
  cases input.count <;> simp

private theorem row_driver :
    (JsonValue.object (rowMembers at' seq prev input driver) : Document arithmetic).field? (word "driver") =
      driver.map JsonValue.object := by
  have kinds := @find_option arithmetic Units "kind" "driver" input.kind JsonValue.string
  have drivers := @find_option arithmetic _ "driver" "driver" driver JsonValue.object
  simp only [JsonValue.field?,rowMembers,storedBody,List.find?_cons,word_inj,List.find?_append,find_text,find_number,kinds,
    drivers]
  cases driver <;> simp

/-- A row's line, but for the line's end. -/
def rowLine (at' : Text) (seq : Nat) (prev : Option Text) (input : Input)
    (driver : Option (List (Units × Document arithmetic))) : Text :=
  stringify arithmetic.toNumbers (.object (rowMembers at' seq prev input driver))

theorem rowLine_parsed (checked : Checked input driver) (few : seq ≤ counted) :
    parse arithmetic.toNumbers (rowLine at' seq prev input driver) = some (.object (rowMembers at' seq prev input driver)) :=
  parse_written (row_written checked few)

theorem rowLine_seq (checked : Checked input driver) (few : seq ≤ counted) (positive : 1 ≤ seq) :
    seqOf arithmetic (parse arithmetic.toNumbers (rowLine at' seq prev input driver)) = some (arithmetic.ofNat seq) := by
  have numbered := @row_seq arithmetic input at' seq prev driver
  unfold seqOf
  rw [rowLine_parsed checked few,Option.bind_some,numbered]
  dsimp only
  rw [arithmetic.isInteger_ofNat seq few,arithmetic.atLeastOne_ofNat seq few,decide_eq_true positive]
  rfl

/-- Where a row stands in the chain: after the last row, or first of all. -/
def Follows (prior : Option (Prior arithmetic)) (seq : Nat) (prev : Option Text) : Prop :=
  (prior = none ∧ seq = 1 ∧ prev = none) ∨
    ∃ before hash, prior = some ⟨arithmetic.ofNat before,hash⟩ ∧ before ≤ counted ∧ seq = oneMore before ∧ prev = some hash

private theorem row_driverAllowed (checked : Checked input driver) :
    driverAllowed (.object (rowMembers at' seq prev input driver) : Document arithmetic) = .ok true := by
  have kind : textAt (.object (rowMembers at' seq prev input driver) : Document arithmetic) "kind" = input.kind := by
    unfold textAt
    rw [row_kind]
    cases input.kind <;> rfl
  unfold driverAllowed
  rw [kind,checked.watched,row_driver]
  cases held : driver with
  | none => rfl
  | some members =>
    rw [Option.isSome_some,if_pos rfl,Option.map_some]
    dsimp only
    rw [(checked.driver members held).1]
    rfl

private theorem row_wellFormed (checked : Checked input driver) :
    optionalFieldsWellFormed (.object (rowMembers at' seq prev input driver) : Document arithmetic) = true := by
  have safe : ∀ own : Int, 0 ≤ own → own ≤ (Kernel.maxSafeInteger : Int) →
      arithmetic.safe? (arithmetic.ofNat own.toNat) = some own := by
    intro own least most
    rw [arithmetic.safe_ofNat own.toNat (by omega),Int.toNat_of_nonneg least]
  unfold optionalFieldsWellFormed
  rw [row_kind,row_reserve,row_count,Bool.and_eq_true_iff,Bool.and_eq_true_iff]
  refine ⟨⟨?_,?_⟩,?_⟩
  · cases held : input.kind with
    | none => rfl
    | some kind => exact checked.kind kind held
  · cases held : input.reserve with
    | none => rfl
    | some own =>
      obtain ⟨least,most⟩ := checked.reserve own held
      rw [Option.map_some]
      dsimp only
      rw [safe own least most]
      exact decide_eq_true least
  · cases held : input.count with
    | none => rfl
    | some own =>
      obtain ⟨least,most⟩ := checked.count own held
      rw [Option.map_some]
      dsimp only
      rw [safe own (by omega) most]
      exact decide_eq_true least

/-- A row that the append writes in its place passes there. -/
theorem rowLine_passes (checked : Checked input driver) (few : seq ≤ counted)
    (digest : ∀ hash ∈ prev, isDigest (Utf16.ofText hash) = true) {prior : Option (Prior arithmetic)}
    (follows : Follows prior seq prev) :
    judge prior (rowLine at' seq prev input driver) = .ok ⟨arithmetic.ofNat seq,true,false⟩ := by
  have positive : 1 ≤ seq := by
    rcases follows with ⟨_,rfl,_⟩ | ⟨before,_,_,_,rfl,_⟩
    · exact le_rfl
    · exact Nat.le_min.mpr ⟨Nat.succ_pos before,Nat.succ_pos _⟩
  have numbered := @rowLine_seq arithmetic input at' seq prev driver checked few positive
  rw [rowLine_parsed checked few] at numbered
  have shown : isPrev (.object (rowMembers at' seq prev input driver) : Document arithmetic) = true := by
    unfold isPrev
    rw [row_prev]
    cases held : prev with
    | none => rfl
    | some hash => exact digest hash held
  have action : textAt (.object (rowMembers at' seq prev input driver) : Document arithmetic) "action" = some input.action := by
    unfold textAt
    rw [row_action]
  have outcome : textAt (.object (rowMembers at' seq prev input driver) : Document arithmetic) "outcome" =
      some input.outcome := by
    unfold textAt
    rw [row_outcome]
  have known : isKnown (.object (rowMembers at' seq prev input driver) : Document arithmetic) = true := by
    unfold isKnown
    rw [action,outcome,Option.any_some,Option.any_some,checked.action,checked.outcome]
    rfl
  unfold judge
  dsimp only
  rw [rowLine_parsed checked few]
  dsimp only
  rw [numbered]
  dsimp only
  rw [if_neg (by simp [isObject,shown]),if_neg (by simp [known]),row_driverAllowed checked]
  dsimp only
  rw [if_neg (by simp),if_neg (by simp [row_wellFormed checked]),known]
  rcases follows with ⟨rfl,rfl,rfl⟩ | ⟨before,hash,rfl,within,rfl,rfl⟩
  · have unlinked : textAt (.object (rowMembers at' 1 none input driver) : Document arithmetic) "prev" = none := by
      unfold textAt
      rw [row_prev]
      rfl
    dsimp only
    rw [unlinked,if_neg (by simp),if_pos (arithmetic.same_ofNat 1 few)]
  · have linked : isLinked (some ⟨arithmetic.ofNat before,hash⟩)
        (some (.object (rowMembers at' (oneMore before) (some hash) input driver)) : Option (Document arithmetic)) = true := by
      unfold isLinked
      rw [Option.any_some,Option.bind_some,row_prev]
      exact decide_eq_true rfl
    dsimp only
    rw [linked,if_neg (by simp),arithmetic.next_ofNat before within,if_neg (by simp [arithmetic.same_ofNat (oneMore before) few])]

end Fields

section Sizes

private def memberBytes (member : Units × Document arithmetic) : Nat :=
  (Octets.utf8 (stringifyMember arithmetic.toNumbers member)).length + 1

private theorem member_bytes {name : String} {value : Document arithmetic} {most : Nat} (short : (word name).length ≤ 12)
    (own : (Octets.utf8 (stringify arithmetic.toNumbers value)).length ≤ most) : memberBytes (word name,value) ≤ most + 76 := by
  have key := string_bytes short
  have colon : (Octets.utf8 [':']).length = 1 := by decide
  have shape : stringifyMember arithmetic.toNumbers (word name,value) =
      quoted (word name) ++ ([':'] ++ stringify arithmetic.toNumbers value) := by
    rw [stringifyMember]
    rfl
  unfold memberBytes
  rw [shape,utf8_append,utf8_append,List.length_append,List.length_append,colon]
  omega

private theorem text_member {name : String} {text : Units} {most : Nat} (short : (word name).length ≤ 12)
    (own : text.length ≤ most) : memberBytes ((word name,.string text) : Units × Document arithmetic) ≤ 6 * most + 78 := by
  refine member_bytes short ?_
  rw [stringify]
  exact string_bytes own

private theorem field_member {name : String} (text : Units) (short : (word name).length ≤ 12) :
    memberBytes ((word name,.string (auditString text)) : Units × Document arithmetic) ≤ 2478 := by
  refine member_bytes short ?_
  rw [stringify]
  exact auditString_bytes text

private theorem number_member {name : String} {number : Nat} (short : (word name).length ≤ 12)
    (few : number ≤ counted) :
    memberBytes ((word name,.number (arithmetic.ofNat number)) : Units × Document arithmetic) ≤ 140 := by
  refine member_bytes short ?_
  rw [stringify,(number_text few).1]
  have digits : (decimal number).length ≤ 16 :=
    Nat.toDigits_length 10 number 16 (by decide) (lt_of_le_of_lt few (by decide))
  have bytes := Utf8.utf8_length (decimal number)
  omega

private theorem option_sum {α : Type} {name : String} {value : Option α} {wrap : α → Document arithmetic} {most : Nat}
    (own : ∀ held ∈ value, memberBytes (word name,wrap held) ≤ most) :
    ((value.map fun held => (word name,wrap held)).toList.map memberBytes).sum ≤ most := by
  cases value with
  | none => exact Nat.zero_le _
  | some held => simpa using own held rfl

private theorem listed_length {words : List String} {text : Units} {most : Nat} (listed' : isListed words text = true)
    (short : ∀ own ∈ words, (word own).length ≤ most) : text.length ≤ most := by
  obtain ⟨own,inside,same⟩ := List.any_eq_true.mp listed'
  rw [← of_decide_eq_true same]
  exact short own inside

/-- The three members of an actor or a driver. -/
private theorem three_bytes {name role session : Document arithmetic} {most : Nat}
    (one : memberBytes (word "name",name) ≤ most) (two : memberBytes (word "role",role) ≤ most)
    (three : memberBytes (word "session",session) ≤ most) :
    (Octets.utf8 (stringify arithmetic.toNumbers
      (.object [(word "name",name),(word "role",role),(word "session",session)]))).length ≤ 3 * most + 2 := by
  have all := @object_bytes arithmetic.toNumbers [(word "name",name),(word "role",role),(word "session",session)]
  simp only [List.map_cons,List.map_nil,List.sum_cons,List.sum_nil] at all
  unfold memberBytes at one two three
  omega

private theorem prev_member (digest : ∀ hash ∈ prev, isDigest (Utf16.ofText hash) = true) :
    memberBytes (word "prev",prevOf arithmetic prev) ≤ 462 := by
  cases prev with
  | none =>
    refine le_trans (@member_bytes arithmetic "prev" .null 4 (by decide) ?_) (by decide)
    rw [stringify]
    decide
  | some hash =>
    have long := of_decide_eq_true (Bool.and_eq_true_iff.mp (digest hash rfl)).1
    exact @text_member arithmetic "prev" (Utf16.ofText hash) 64 (by decide) long.le

/-- A row is far shorter than what is read of a file's end. -/
theorem rowLine_bytes (checked : Checked input driver) (few : seq ≤ counted) (dated : at'.length ≤ 40)
    (digest : ∀ hash ∈ prev, isDigest (Utf16.ofText hash) = true) :
    (Octets.utf8 (rowLine at' seq prev input driver)).length + 3 ≤ TAIL_BYTES := by
  have all := @object_bytes arithmetic.toNumbers (rowMembers at' seq prev input driver)
  have instant : memberBytes ((word "at",.string (Utf16.ofText at')) : Units × Document arithmetic) ≤ 558 := by
    refine @text_member arithmetic "at" (Utf16.ofText at') 80 (by decide) ?_
    have units := units_length (at'.map Utf16.Point.scalar)
    rw [List.flatMap_map,List.length_map] at units
    change (at'.flatMap Utf16.unitsOf).length ≤ 80
    exact le_trans units (by omega)
  have numbered := @number_member arithmetic "seq" seq (by decide) few
  have linked := @prev_member arithmetic prev digest
  have session : memberBytes ((word "session",sessionOf input.actor.session) : Units × Document arithmetic) ≤ 2478 := by
    cases input.actor.session with
    | none =>
      refine le_trans (@member_bytes arithmetic "session" .null 4 (by decide) ?_) (by decide)
      rw [stringify]
      decide
    | some session => exact field_member session (by decide)
  have actor := @member_bytes arithmetic "actor" _ _ (by decide)
    (three_bytes (field_member input.actor.name (by decide)) (field_member input.actor.role (by decide)) session)
  have action := @text_member arithmetic "action" input.action 40 (by decide) (listed_length checked.action (by decide))
  have outcome := @text_member arithmetic "outcome" input.outcome 40 (by decide) (listed_length checked.outcome (by decide))
  have kind := @option_sum arithmetic _ "kind" input.kind JsonValue.string 318 fun kind held => by
    have own := checked.kind kind held
    have long := of_decide_eq_true (Bool.and_eq_true_iff.mp (Bool.and_eq_true_iff.mp own).1).2
    exact text_member (by decide) long
  have texts : ∀ name (value : Option Units), (word name).length ≤ 12 →
      ((optional name value : List (Units × Document arithmetic)).map memberBytes).sum ≤ 2478 :=
    fun name value short => option_sum fun text _ => field_member text short
  have target := texts "target" input.target (by decide)
  have reason := texts "reason" input.reason (by decide)
  have before := texts "beforeDigest" input.beforeDigest (by decide)
  have after := texts "afterDigest" input.afterDigest (by decide)
  have ticket := texts "ticket" input.ticket (by decide)
  have reserve : ((number "reserve" input.reserve : List (Units × Document arithmetic)).map memberBytes).sum ≤ 140 :=
    option_sum fun own held => number_member (by decide) (by have safe := checked.reserve own held; unfold counted; omega)
  have count : ((number "count" input.count : List (Units × Document arithmetic)).map memberBytes).sum ≤ 140 :=
    option_sum fun own held => number_member (by decide) (by have safe := checked.count own held; unfold counted; omega)
  have seat := @option_sum arithmetic _ "driver" driver JsonValue.object 1022 fun members held => by
    obtain ⟨_,name,role,session,short,operator,short',rfl⟩ := checked.driver members held
    refine @member_bytes arithmetic "driver" _ 946 (by decide) (le_trans (@three_bytes arithmetic _ _ _ 270 ?_ ?_ ?_) (by decide))
    · exact le_trans (text_member (by decide) short) (by decide)
    · rw [operator]
      exact le_trans (@text_member arithmetic "role" _ 8 (by decide) (by decide)) (by decide)
    · exact le_trans (text_member (by decide) short') (by decide)
  have sum : ((rowMembers at' seq prev input driver).map memberBytes).sum ≤ 60000 := by
    unfold rowMembers storedBody
    simp only [List.map_cons,List.map_append,List.sum_cons,List.sum_append]
    omega
  have tail : TAIL_BYTES = 65536 := rfl
  have same : ((rowMembers at' seq prev input driver).map memberBytes).sum = ((rowMembers at' seq prev input driver).map
    fun member => (Octets.utf8 (stringifyMember arithmetic.toNumbers member)).length + 1).sum := rfl
  unfold rowLine
  omega

end Sizes

end Bodies

end PiDispatch.ConsoleAudit
