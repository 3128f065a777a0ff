import PiDispatch.ConsoleAuditRuns

/-! What the audit's walk vouches for: two chains that end alike are alike as far as both go, and a row that is changed,
taken out, put in or moved cuts off everything from there on. -/
namespace PiDispatch.ConsoleAudit
open Kernel JsonText

section Neighbours
variable (arithmetic : Arithmetic) (sha256 : Text → Text)

/-- The digest of a row before it, as a line shows it. -/
def shown (line : Text) : Option Units := (parse arithmetic.toNumbers line).bind fun row => textAt row "prev"

/-- Whether a line shows the digest of another. -/
def Vouches (line before : Text) : Prop := shown arithmetic line = some (Utf16.ofText (sha256 before))

def Passes (lines : List Text) : Prop := ∃ last : Option (Prior arithmetic), chain sha256 none lines = some last

variable {arithmetic sha256}

theorem isLinked_shown (prior : Prior arithmetic) (line : Text) :
    isLinked (some prior) (parse arithmetic.toNumbers line) = true ↔
      shown arithmetic line = some (Utf16.ofText prior.hash) := by
  unfold isLinked shown textAt
  rw [Option.any_some]
  cases parse arithmetic.toNumbers line with
  | none => simp
  | some row =>
    rw [Option.bind_some,Option.bind_some]
    cases row.field? (word "prev") with
    | none => simp
    | some own => cases own <;> simp

theorem judge_linked {prior : Prior arithmetic} {line : Text} {passed : Passed arithmetic}
    (found : judge (some prior) line = .ok passed) : isLinked (some prior) (parse arithmetic.toNumbers line) = true := by
  unfold judge at found
  dsimp only at found
  split at found
  · cases found
  next row parsed =>
    split at found
    · cases found
    split at found
    · cases found
    split at found
    · cases found
    split at found
    · cases found
    split at found
    · cases found
    split at found
    · cases found
    split at found
    · cases found
    next linked =>
      rw [parsed] at linked
      rw [parsed]
      exact not_not.mp linked

/-- What the walk says where a row's members cannot be made a text. -/
def unreadable : Text := "the file cannot be read (error)".toList

/-- Where a line does not pass, it vouches for the row before it or it is said not to. -/
theorem judge_refused {prior : Option (Prior arithmetic)} {line : Text} {refused : Refused}
    (found : judge prior line = .error refused) :
    refused.unlinked = !isLinked prior (parse arithmetic.toNumbers line) ∨ refused.reason = unreadable ∧
      ∀ other (passed : Passed arithmetic), judge other line ≠ .ok passed := by
  unfold judge at found
  dsimp only at found
  split at found
  next parsed =>
    rw [← Except.error.inj found,parsed]
    exact .inl rfl
  next row parsed =>
    split at found
    · rw [← Except.error.inj found,parsed]
      exact .inl rfl
    next seq numbered =>
      split at found
      · rw [← Except.error.inj found,parsed]
        exact .inl rfl
      next shaped =>
        split at found
        · rw [← Except.error.inj found,parsed]
          exact .inl rfl
        next worded =>
          split at found
          next thrown driver =>
            refine .inr ⟨(congrArg Refused.reason (Except.error.inj found)).symm,?_⟩
            intro other passed passes
            unfold judge at passes
            rw [parsed] at passes
            simp only [numbered,driver,if_neg shaped,if_neg worded] at passes
            cases passes
          next allowed driver =>
            split at found
            · rw [← Except.error.inj found,parsed]
              exact .inl rfl
            split at found
            · rw [← Except.error.inj found,parsed]
              exact .inl rfl
            split at found
            · split at found
              · cases found
              split at found
              · cases found
              · rw [← Except.error.inj found,parsed]
                exact .inl rfl
            · split at found
              · rw [← Except.error.inj found,parsed]
                exact .inl rfl
              split at found
              · rw [← Except.error.inj found,parsed]
                exact .inl rfl
              · cases found

theorem texts_inj {first second : Text} (same : Utf16.ofText first = Utf16.ofText second) : first = second := by
  have words : word (String.ofList first) = word (String.ofList second) := by
    unfold word
    rw [String.toList_ofList,String.toList_ofList]
    exact same
  have equal := congrArg String.toList (word_inj.mp words)
  rwa [String.toList_ofList,String.toList_ofList] at equal

theorem Passes.start {first second : List Text} (passes : Passes arithmetic sha256 (first ++ second)) :
    Passes arithmetic sha256 first := by
  obtain ⟨last,whole⟩ := passes
  rw [chain_append] at whole
  obtain ⟨middle,here,_⟩ := Option.bind_eq_some_iff.mp whole
  exact ⟨middle,here⟩

/-- Two neighbours in a chain. -/
theorem Passes.neighbours {earlier later : List Text} {row next : Text}
    (passes : Passes arithmetic sha256 (earlier ++ row :: next :: later)) :
    Vouches arithmetic sha256 next row ∧ ∃ prior passed, @judge arithmetic prior next = .ok passed := by
  have shape : earlier ++ row :: next :: later = (earlier ++ [row]) ++ next :: later := by simp
  rw [shape] at passes
  obtain ⟨last,whole⟩ := passes
  rw [chain_append] at whole
  obtain ⟨middle,here,own⟩ := Option.bind_eq_some_iff.mp whole
  obtain ⟨seq,_,rfl⟩ := chain_last here
  rw [chain] at own
  split at own
  · cases own
  next passed found => exact ⟨(isLinked_shown _ _).mp (judge_linked found),_,passed,found⟩

/-- A row that passes, wherever it stands. -/
theorem Passes.judged {earlier later : List Text} {row : Text} (passes : Passes arithmetic sha256 (earlier ++ row :: later)) :
    ∃ prior passed, @judge arithmetic prior row = .ok passed := by
  obtain ⟨last,whole⟩ := passes
  rw [chain_append] at whole
  obtain ⟨middle,_,own⟩ := Option.bind_eq_some_iff.mp whole
  rw [chain] at own
  split at own
  · cases own
  next passed found => exact ⟨middle,passed,found⟩

/-- Chains with one last row are alike as far as both go. -/
theorem chains_agree {first second : List Text} {row : Text}
    (apart : ∀ own ∈ first, ∀ other ∈ second, sha256 own = sha256 other → own = other)
    (passes : Passes arithmetic sha256 (first ++ [row])) (passes' : Passes arithmetic sha256 (second ++ [row])) :
    first <:+ second ∨ second <:+ first := by
  induction first using List.reverseRecOn generalizing second row with
  | nil => exact .inl List.nil_suffix
  | append_singleton first own ih =>
    rcases List.eq_nil_or_concat second with rfl | ⟨second,other,rfl⟩
    · exact .inr List.nil_suffix
    · rw [List.concat_eq_append] at passes' apart ⊢
      have shows : Vouches arithmetic sha256 row own :=
        (@Passes.neighbours arithmetic sha256 first [] own row (by simpa using passes)).1
      have shows' : Vouches arithmetic sha256 row other :=
        (@Passes.neighbours arithmetic sha256 second [] other row (by simpa using passes')).1
      have equal : sha256 own = sha256 other := texts_inj (Option.some.inj (shows.symm.trans shows'))
      obtain rfl := apart own (by simp) other (by simp) equal
      have rest := ih (fun earlier inside other inside' => apart earlier (by simp [inside]) other (by simp [inside']))
        passes.start passes'.start
      refine rest.imp ?_ ?_
      · rintro ⟨front,rfl⟩
        exact ⟨front,by rw [List.append_assoc]⟩
      · rintro ⟨front,rfl⟩
        exact ⟨front,by rw [List.append_assoc]⟩

end Neighbours

section Places
variable {arithmetic : Arithmetic} {sha256 : Text → Text}

def monthsOf (listing : Listing) : List String :=
  match listing.names with
  | .ok names => sortTexts (names.filter isMonthFile)
  | .error _ => []

/-- The lines of a directory's month files, in the order of their names. -/
def linesIn (listing : Listing) : List Text := (monthsOf listing).flatMap fun file => fileLines (listing.file file)

/-- A directory whose names and files are all read. -/
structure Readable (listing : Listing) : Prop where
  names : ∃ names, listing.names = .ok names ∧ names.Nodup
  files : ∀ file ∈ monthsOf listing, (listing.file file).fault = none

/-- How many lines there are up to a place, its own counted. -/
def rank (listing : Listing) : Option (Place arithmetic) → Nat
  | none => 0
  | some place => (((monthsOf listing).takeWhile fun file => file ≠ place.file).flatMap
      fun file => fileLines (listing.file file)).length + place.line

/-- What a walk knows once lines have passed. -/
structure Walked (sha256 : Text → Text) (listing : Listing) (walk : Walk arithmetic) (passed : List Text) : Prop where
  chained : chain sha256 none passed = some walk.prior
  last : rank listing walk.last = passed.length
  before : rank listing walk.beforeLast = passed.length - 1
  one : ∀ place ∈ walk.last, 1 ≤ passed.length
  two : ∀ place ∈ walk.beforeLast, 2 ≤ passed.length

/-- The line at which a walk stops. -/
def Stopped (walk : Walk arithmetic) (stop : Stop) (line : Text) : Prop :=
  ∃ refused, judge walk.prior line = .error refused ∧ stop.reason = refused.reason ∧ stop.unlinked = refused.unlinked

variable {listing : Listing}

private theorem rank_here {done rest : List String} {file : String} (shape : monthsOf listing = done ++ file :: rest)
    (distinct : (monthsOf listing).Nodup) (line : Nat) (seq : arithmetic.Value) :
    rank listing (some ⟨file,line,seq⟩) = (done.flatMap fun file => fileLines (listing.file file)).length + line := by
  have fresh : ∀ other ∈ done, decide (other ≠ file) = true := by
    intro other inside
    rw [shape] at distinct
    exact decide_eq_true ((List.nodup_append.mp distinct).2.2 other inside file List.mem_cons_self)
  unfold rank
  dsimp only
  rw [shape,List.takeWhile_append_of_pos fresh,List.takeWhile_cons_of_neg (by simp),List.append_nil]

private theorem walkLines_walked {done rest : List String} {file : String} (shape : monthsOf listing = done ++ file :: rest)
    (distinct : (monthsOf listing).Nodup) {walk : Walk arithmetic} {passed lines : List Text} {read : Nat}
    (walked : Walked sha256 listing walk passed)
    (place : passed.length = (done.flatMap fun file => fileLines (listing.file file)).length + read) :
    ∃ next, (walkLines sha256 file walk read lines = (next,none) ∧ Walked sha256 listing next (passed ++ lines)) ∨
      ∃ stop before line after, walkLines sha256 file walk read lines = (next,some stop) ∧ lines = before ++ line :: after ∧
        Walked sha256 listing next (passed ++ before) ∧ Stopped next stop line := by
  induction lines generalizing walk passed read with
  | nil => exact ⟨walk,.inl ⟨rfl,by rwa [List.append_nil]⟩⟩
  | cons line lines ih =>
    rw [walkLines]
    cases found : judge walk.prior line with
    | error refused => exact ⟨walk,.inr ⟨_,[],line,lines,rfl,rfl,by rwa [List.append_nil],refused,found,rfl,rfl⟩⟩
    | ok own =>
      have next : Walked sha256 listing (walk.pass file (read + 1) (sha256 line) own) (passed ++ [line]) := by
        refine ⟨?_,?_,?_,?_,?_⟩
        · rw [chain_append,walked.chained,Option.bind_some,chain,found]
          rfl
        · change rank listing (some ⟨file,read + 1,own.seq⟩) = _
          rw [rank_here shape distinct,List.length_append,List.length_singleton]
          omega
        · change rank listing walk.last = _
          rw [walked.last,List.length_append,List.length_singleton]
          rfl
        · intro earlier held
          rw [List.length_append,List.length_singleton]
          omega
        · intro earlier held
          have some' := walked.one earlier held
          rw [List.length_append,List.length_singleton]
          omega
      obtain ⟨last,through | ⟨stop,before,other,after,stops,split',walked',stopped⟩⟩ := @ih _ _ (read + 1) next (by
        rw [List.length_append,List.length_singleton]
        omega)
      · exact ⟨last,.inl ⟨through.1,by rw [List.append_assoc] at through; exact through.2⟩⟩
      · refine ⟨last,.inr ⟨stop,line :: before,other,after,stops,by rw [split']; rfl,?_,stopped⟩⟩
        rw [List.append_assoc] at walked'
        exact walked'

private theorem walkFiles_walked {done rest : List String} (shape : monthsOf listing = done ++ rest)
    (distinct : (monthsOf listing).Nodup) (readable : ∀ file ∈ monthsOf listing, (listing.file file).fault = none)
    {walk : Walk arithmetic} (walked : Walked sha256 listing walk (done.flatMap fun file => fileLines (listing.file file))) :
    ∃ next, (walkFiles sha256 listing walk rest = (next,none) ∧ Walked sha256 listing next (linesIn listing)) ∨
      ∃ stop before line after, walkFiles sha256 listing walk rest = (next,some stop) ∧
        linesIn listing = before ++ line :: after ∧ Walked sha256 listing next before ∧ Stopped next stop line := by
  induction rest generalizing done walk with
  | nil =>
    rw [List.append_nil] at shape
    refine ⟨walk,.inl ⟨rfl,?_⟩⟩
    unfold linesIn
    rwa [shape]
  | cons file rest ih =>
    obtain ⟨next,through | ⟨stop,before,line,after,stops,split',walked',stopped⟩⟩ :=
      @walkLines_walked arithmetic sha256 listing done rest file shape distinct walk _ (fileLines (listing.file file)) 0
        walked rfl
    · have fault := readable file (by rw [shape]; exact List.mem_append_right _ List.mem_cons_self)
      have own : Walked sha256 listing next ((done ++ [file]).flatMap fun file => fileLines (listing.file file)) := by
        rw [List.flatMap_append,List.flatMap_singleton]
        exact through.2
      rw [walkFiles,through.1]
      dsimp only
      rw [fault]
      exact ih (by rw [List.append_assoc]; exact shape) own
    · refine ⟨next,.inr ⟨stop,_,line,after ++ rest.flatMap fun file => fileLines (listing.file file),?_,?_,walked',stopped⟩⟩
      · rw [walkFiles,stops]
      · unfold linesIn
        rw [shape,List.flatMap_append,List.flatMap_cons,split']
        simp

/-- A verification with the last row: it goes through, or stops at a line that does not pass. -/
theorem verify_walked (readable : Readable listing) (withLast : Bool) : ∃ walk : Walk arithmetic,
    (Walked sha256 listing walk (linesIn listing) ∧
      (∃ rows startsAt unknown, (verifyConsoleAudit sha256 listing withLast).1 = (.intact rows startsAt unknown : Report arithmetic)) ∧
      (verifyConsoleAudit sha256 listing withLast).2 = if withLast then some (vouched walk false) else none) ∨
    ∃ before line after rows file number refused, linesIn listing = before ++ line :: after ∧
      Walked sha256 listing walk before ∧ judge walk.prior line = .error refused ∧
      (verifyConsoleAudit sha256 listing withLast).1 = (.broken rows file number refused.reason : Report arithmetic) ∧
      (verifyConsoleAudit sha256 listing withLast).2 = if withLast then some (vouched walk refused.unlinked) else none := by
  obtain ⟨names,read,distinct⟩ := readable.names
  have months : monthsOf listing = sortTexts (names.filter isMonthFile) := by
    unfold monthsOf
    rw [read]
  have distinct' : (monthsOf listing).Nodup := by
    rw [months]
    exact (sortTexts_perm _).nodup_iff.mpr (distinct.filter _)
  have start : Walked sha256 listing (.start arithmetic) (([] : List String).flatMap fun file => fileLines (listing.file file)) :=
    ⟨rfl,rfl,rfl,fun _ held => (Option.not_mem_none _ held).elim,fun _ held => (Option.not_mem_none _ held).elim⟩
  obtain ⟨walk,through | ⟨stop,before,line,after,stops,split',walked,refused,judged,reason,unlinked⟩⟩ :=
    @walkFiles_walked arithmetic sha256 listing [] (monthsOf listing) rfl distinct' readable.files _ start
  · refine ⟨walk,.inl ⟨through.2,?_⟩⟩
    unfold verifyConsoleAudit
    dsimp only
    rw [read]
    dsimp only
    rw [← months,through.1]
    exact ⟨⟨_,_,_,rfl⟩,rfl⟩
  · refine ⟨walk,.inr ⟨before,line,after,walk.rows,stop.file,stop.line,refused,split',walked,judged,?_⟩⟩
    unfold verifyConsoleAudit
    dsimp only
    rw [read]
    dsimp only
    rw [← months,stops]
    dsimp only
    rw [reason,unlinked]
    exact ⟨rfl,rfl⟩

end Places

section Evidence
variable (arithmetic : Arithmetic) (sha256 : Text → Text)

/-- No two different lines of these have one digest. -/
def Apart (first second : List Text) : Prop := ∀ own ∈ first, ∀ other ∈ second, sha256 own = sha256 other → own = other

/-- No two lines show each other's digests, and none its own. -/
def Acyclic (lines : List Text) : Prop :=
  ∀ own ∈ lines, ∀ other ∈ lines, Vouches arithmetic sha256 own other → ¬Vouches arithmetic sha256 other own

/-- Lines in which one before the last of `count` is changed, taken out, put in or exchanged with another; and where that is. -/
inductive Tampered (lines : List Text) (count : Nat) : Nat → List Text → Prop
  | edit (before : List Text) (line other : Text) (after : List Text) (shape : lines = before ++ line :: after)
      (early : before.length + 1 < count) (changed : other ≠ line) :
      Tampered lines count before.length (before ++ other :: after)
  | deletion (before : List Text) (line : Text) (after : List Text) (shape : lines = before ++ line :: after)
      (early : before.length + 1 < count) (first : before ≠ []) : Tampered lines count before.length (before ++ after)
  | insertion (before : List Text) (other : Text) (after : List Text) (shape : lines = before ++ after)
      (early : before.length < count) (first : before ≠ []) :
      Tampered lines count before.length (before ++ other :: after)
  | exchange (before : List Text) (line : Text) (between : List Text) (other : Text) (after : List Text)
      (shape : lines = before ++ line :: (between ++ other :: after))
      (early : before.length + between.length + 2 < count) (changed : other ≠ line) :
      Tampered lines count before.length (before ++ other :: (between ++ line :: after))

variable {arithmetic sha256}

/-- A walk that goes through passes every line. -/
theorem intact_passes {listing : Listing} (readable : Readable listing) {withLast : Bool} {rows : Nat}
    {startsAt : Option (String × arithmetic.Value)} {unknown : Option Nat}
    (intact : (verifyConsoleAudit sha256 listing withLast).1 = (.intact rows startsAt unknown : Report arithmetic)) :
    Passes arithmetic sha256 (linesIn listing) := by
  obtain ⟨walk,⟨walked,_⟩ | ⟨_,_,_,_,_,_,_,_,_,_,broken,_⟩⟩ := @verify_walked arithmetic sha256 listing readable withLast
  · exact ⟨_,walked.chained⟩
  · rw [intact] at broken
    cases broken

/-- The last row that is vouched for is among the lines that passed. -/
theorem last_passes {listing : Listing} (readable : Readable listing) {vouched' : Vouched arithmetic}
    (added : (verifyConsoleAudit sha256 listing true).2 = some vouched') :
    ∃ passed rest, linesIn listing = passed ++ rest ∧ Passes arithmetic sha256 passed ∧
      rank listing vouched'.last ≤ passed.length := by
  obtain ⟨walk,⟨walked,_,own⟩ | ⟨before,line,after,_,_,_,refused,shape,walked,_,_,own⟩⟩ :=
    @verify_walked arithmetic sha256 listing readable true
  · rw [added] at own
    obtain rfl : vouched' = vouched walk false := Option.some.inj own
    exact ⟨linesIn listing,[],(List.append_nil _).symm,⟨_,walked.chained⟩,walked.last.le⟩
  · rw [added] at own
    obtain rfl : vouched' = vouched walk refused.unlinked := Option.some.inj own
    refine ⟨before,line :: after,shape,⟨_,walked.chained⟩,?_⟩
    unfold vouched
    split
    · exact walked.before.le.trans (Nat.sub_le _ _)
    · exact walked.last.le

/-- The line behind the last row of a broken chain shows that row's digest. -/
theorem last_vouched {listing : Listing} (readable : Readable listing) {rows : Nat} {file : Option String} {line : Nat}
    {reason : Text} {vouched' : Vouched arithmetic} {place : Place arithmetic}
    (broken : verifyConsoleAudit sha256 listing true = (.broken rows file line reason,some vouched'))
    (read : reason ≠ unreadable) (held : vouched'.last = some place) :
    ∃ earlier row next later, linesIn listing = earlier ++ row :: next :: later ∧
      rank listing vouched'.last = earlier.length + 1 ∧ Passes arithmetic sha256 (earlier ++ [row]) ∧
      Vouches arithmetic sha256 next row := by
  obtain ⟨walk,⟨_,⟨_,_,_,intact⟩,_⟩ | ⟨before,stopped,after,_,_,_,refused,shape,walked,judged,report,own⟩⟩ :=
    @verify_walked arithmetic sha256 listing readable true
  · rw [broken] at intact
    cases intact
  · rw [broken] at report own
    obtain rfl : reason = refused.reason := (Report.broken.inj report).2.2.2
    obtain rfl : vouched' = vouched walk refused.unlinked := Option.some.inj own
    cases unlinked : refused.unlinked with
    | true =>
      rw [unlinked] at held
      have two := walked.two place held
      obtain ⟨front,last,rfl⟩ := (List.eq_nil_or_concat before).resolve_left (by rintro rfl; simp at two)
      rw [List.concat_eq_append] at *
      obtain ⟨front,row,rfl⟩ := (List.eq_nil_or_concat front).resolve_left (by rintro rfl; simp at two)
      rw [List.concat_eq_append] at *
      have passes : Passes arithmetic sha256 (front ++ row :: last :: []) := ⟨_,by simpa using walked.chained⟩
      refine ⟨front,row,last,stopped :: after,by rw [shape]; simp,?_,?_,passes.neighbours.1⟩
      · change rank listing walk.beforeLast = _
        rw [walked.before]
        simp
      · have shape' : front ++ row :: last :: [] = (front ++ [row]) ++ [last] := by simp
        rw [shape'] at passes
        exact passes.start
    | false =>
      rw [unlinked] at held
      have one := walked.one place held
      obtain ⟨front,row,rfl⟩ := (List.eq_nil_or_concat before).resolve_left (by rintro rfl; simp at one)
      rw [List.concat_eq_append] at *
      have linked : isLinked walk.prior (parse arithmetic.toNumbers stopped) = true := by
        rcases judge_refused judged with same | ⟨unread,_⟩
        · rw [unlinked] at same
          exact Bool.not_eq_false' _ |>.mp same.symm
        · exact absurd unread read
      obtain ⟨seq,_,prior⟩ := chain_last walked.chained
      rw [prior] at linked
      refine ⟨front,row,stopped,after,by rw [shape]; simp,?_,⟨_,walked.chained⟩,(isLinked_shown _ _).mp linked⟩
      change rank listing walk.last = _
      rw [walked.last]
      simp

/-- Where a line does not show the digest of the one before it, nothing from that one on is vouched for. -/
theorem last_before {listing : Listing} (readable : Readable listing) {vouched' : Vouched arithmetic}
    (added : (verifyConsoleAudit sha256 listing true).2 = some vouched') {earlier later : List Text} {row next : Text}
    (shape : linesIn listing = earlier ++ row :: next :: later)
    (judged : ∃ prior passed, @judge arithmetic prior next = .ok passed) (silent : ¬Vouches arithmetic sha256 next row) :
    rank listing vouched'.last ≤ earlier.length := by
  have short : ∀ passed rest, linesIn listing = passed ++ rest → Passes arithmetic sha256 passed →
      passed.length ≤ earlier.length + 1 := by
    intro passed rest split' passes
    by_contra long
    have whole : earlier ++ row :: next :: later = (earlier ++ [row,next]) ++ later := by simp
    rw [split',whole] at shape
    obtain ⟨more,rfl⟩ : (earlier ++ [row,next]) <+: passed := by
      refine List.prefix_of_prefix_length_le ⟨later,shape.symm⟩ ⟨rest,rfl⟩ ?_
      simp only [List.length_append,List.length_cons,List.length_nil]
      omega
    exact silent (@Passes.neighbours arithmetic sha256 earlier more row next (by simpa using passes)).1
  obtain ⟨walk,⟨walked,_,own⟩ | ⟨before,stopped,after,_,_,_,refused,split',walked,stops,_,own⟩⟩ :=
    @verify_walked arithmetic sha256 listing readable true
  · have few := short (linesIn listing) [] (List.append_nil _).symm ⟨_,walked.chained⟩
    rw [shape] at few
    simp only [List.length_append,List.length_cons] at few
    omega
  · rw [added] at own
    obtain rfl : vouched' = vouched walk refused.unlinked := Option.some.inj own
    have few := short before (stopped :: after) split' ⟨_,walked.chained⟩
    have least : rank listing (vouched walk refused.unlinked).last ≤ before.length := by
      unfold vouched
      split
      · exact walked.before.le.trans (Nat.sub_le _ _)
      · exact walked.last.le
    rcases Nat.lt_or_ge before.length (earlier.length + 1) with fewer | all
    · omega
    · -- the walk stops at the line that does not show its neighbour's digest
      have whole : earlier ++ row :: next :: later = (earlier ++ [row]) ++ next :: later := by simp
      rw [split',whole] at shape
      obtain ⟨same,rest⟩ := List.append_inj shape (by simp; omega)
      obtain ⟨rfl,_⟩ := List.cons.inj rest
      subst same
      obtain ⟨seq,_,prior⟩ := chain_last walked.chained
      have unlinked : refused.unlinked = true := by
        rcases judge_refused stops with same | ⟨_,never⟩
        · rw [same,Bool.not_eq_true']
          by_contra linked
          rw [prior] at linked
          exact silent ((isLinked_shown _ _).mp (Bool.not_eq_false _ |>.mp linked))
        · obtain ⟨other,passed,passes⟩ := judged
          exact absurd passes (never other passed)
      rw [unlinked]
      change rank listing walk.beforeLast ≤ _
      rw [walked.before]
      simp

/-- What stands before the last row that is vouched for passes, and shows its neighbours' digests. -/
private theorem early_passes {listing : Listing} (readable : Readable listing) {vouched' : Vouched arithmetic}
    (added : (verifyConsoleAudit sha256 listing true).2 = some vouched') {first second : List Text}
    (shape : linesIn listing = first ++ second) (early : first.length ≤ rank listing vouched'.last) :
    Passes arithmetic sha256 first := by
  obtain ⟨passed,rest,split',passes,least⟩ := last_passes readable added
  obtain ⟨more,rfl⟩ : first <+: passed :=
    List.prefix_of_prefix_length_le ⟨second,shape.symm⟩ ⟨rest,split'.symm⟩ (early.trans least)
  exact passes.start

/-- A row before the last that is vouched for cannot be touched so that the walk vouches for its place again. -/
theorem tampering_shows {listing tampered : Listing} (readable : Readable listing) (readable' : Readable tampered)
    {vouched' vouched'' : Vouched arithmetic} (added : (verifyConsoleAudit sha256 listing true).2 = some vouched')
    (added' : (verifyConsoleAudit sha256 tampered true).2 = some vouched'')
    (apart : Apart sha256 (linesIn listing) (linesIn listing ++ linesIn tampered))
    (acyclic : Acyclic arithmetic sha256 (linesIn listing)) {position : Nat}
    (touched : Tampered (linesIn listing) (rank listing vouched'.last) position (linesIn tampered)) :
    rank tampered vouched''.last ≤ position := by
  have few : rank listing vouched'.last ≤ (linesIn listing).length := by
    obtain ⟨passed,rest,split',_,least⟩ := last_passes readable added
    rw [split',List.length_append]
    omega
  generalize all : linesIn tampered = lines at touched apart
  cases touched with
  | edit before line other after shape early changed =>
    cases after with
    | nil =>
      rw [shape] at few
      simp at few
      omega
    | cons next after =>
      have whole : linesIn listing = (before ++ [line,next]) ++ after := by rw [shape]; simp
      have passes := early_passes readable added whole (by simp; omega)
      obtain ⟨shows,judged⟩ := @Passes.neighbours arithmetic sha256 before [] line next passes
      refine last_before readable' added' all judged fun silent => changed ?_
      have equal := texts_inj (Option.some.inj (shows.symm.trans silent))
      exact (apart line (by rw [shape]; simp) other (by simp) equal).symm
  | deletion before line after shape early first =>
    obtain ⟨before,row,rfl⟩ := (List.eq_nil_or_concat before).resolve_left first
    rw [List.concat_eq_append] at *
    cases after with
    | nil =>
      rw [shape] at few
      simp at few early
      omega
    | cons next after =>
      have whole : linesIn listing = (before ++ row :: line :: next :: []) ++ after := by rw [shape]; simp
      have passes := early_passes readable added whole (by simp at early ⊢; omega)
      obtain ⟨shows,_⟩ := passes.neighbours
      have passes' : Passes arithmetic sha256 ((before ++ [row]) ++ line :: next :: []) := by simpa using passes
      obtain ⟨shows',judged⟩ := passes'.neighbours
      have tail : linesIn tampered = before ++ row :: next :: after := by rw [all]; simp
      refine (last_before readable' added' tail judged fun silent => ?_).trans (by simp)
      have equal := texts_inj (Option.some.inj (shows'.symm.trans silent))
      obtain rfl := apart line (by rw [shape]; simp) row (by rw [shape]; simp) equal
      exact acyclic line (by rw [shape]; simp) line (by rw [shape]; simp) shows shows
  | insertion before other after shape early first =>
    obtain ⟨before,row,rfl⟩ := (List.eq_nil_or_concat before).resolve_left first
    rw [List.concat_eq_append] at *
    cases after with
    | nil =>
      rw [shape] at few
      simp at few early
      omega
    | cons next after =>
      have whole : linesIn listing = (before ++ row :: next :: []) ++ after := by rw [shape]; simp
      have passes := early_passes readable added whole (by simp at early ⊢; omega)
      obtain ⟨shows,judged⟩ := passes.neighbours
      by_cases copy : other = row
      · subst copy
        have tail : linesIn tampered = before ++ other :: other :: next :: after := by rw [all]; simp
        refine (last_before readable' added' tail passes.judged fun silent => ?_).trans (by simp)
        exact acyclic other (by rw [shape]; simp) other (by rw [shape]; simp) silent silent
      · have tail : linesIn tampered = (before ++ [row]) ++ other :: next :: after := by rw [all]
        refine last_before readable' added' tail judged fun silent => copy ?_
        have equal := texts_inj (Option.some.inj (shows.symm.trans silent))
        exact (apart row (by rw [shape]; simp) other (by simp) equal).symm
  | exchange before line between other after shape early changed =>
    cases between with
    | nil =>
      have whole : linesIn listing = (before ++ line :: other :: []) ++ after := by rw [shape]; simp
      have passes := early_passes readable added whole (by simp at early ⊢; omega)
      obtain ⟨shows,_⟩ := passes.neighbours
      have tail : linesIn tampered = before ++ other :: line :: after := by rw [all]; simp
      refine last_before readable' added' tail passes.judged fun silent => ?_
      exact acyclic other (by rw [shape]; simp) line (by rw [shape]; simp) shows silent
    | cons middle between =>
      have whole : linesIn listing = (before ++ line :: middle :: []) ++ (between ++ other :: after) := by rw [shape]; simp
      have passes := early_passes readable added whole (by simp at early ⊢; omega)
      obtain ⟨shows,judged⟩ := passes.neighbours
      have tail : linesIn tampered = before ++ other :: middle :: (between ++ line :: after) := by rw [all]; simp
      refine last_before readable' added' tail judged fun silent => changed ?_
      have equal := texts_inj (Option.some.inj (shows.symm.trans silent))
      exact (apart line (by rw [shape]; simp) other (by rw [shape]; simp) equal).symm

end Evidence

section Samples

/-- The row in the middle of three, or one at another instant in its place. -/
def middleRow (at' : String) : Text :=
  @rowLine plain at'.toList 2 (some (hexadecimal 0x28ba2e522e607fd1d6c0879d7a0c9ecdfe0cfd14f481c3c47c71a60bf3c000ba)) login
    none

def threeRows : List Text :=
  [@rowLine plain "2026-07-01T00:00:00.000Z".toList 1 none login none,middleRow "2026-07-01T00:01:00.000Z",
    @rowLine plain "2026-07-01T00:02:00.000Z".toList 3
      (some (hexadecimal 0xc3d9b4092291adc9842ae4d4f9344dbeccf76f3ea5a70530ddc4d4614f922d68)) login none]

def threeEdited : List Text := threeRows.set 1 (middleRow "2026-07-01T00:01:01.000Z")

def july (rows : List Text) : Listing :=
  Directory.listing (Dict.empty.set "2026-07.jsonl" ⟨linesBytes rows,1782864120000⟩)

private theorem july_readable (rows : List Text) : Readable (july rows) :=
  ⟨⟨_,rfl,List.nodup_singleton _⟩,fun _ _ => rfl⟩

private theorem july_lines {rows : List Text} (single : ∀ row ∈ rows, '\n' ∉ row) : linesIn (july rows) = rows := by
  have lines := @fileLines_rows rows [] single List.not_mem_nil
  rw [List.append_nil,if_pos rfl,List.append_nil] at lines
  have month : isMonthFile "2026-07.jsonl" = true := by decide +kernel
  have months : monthsOf (july rows) = ["2026-07.jsonl"] := by
    change sortTexts (["2026-07.jsonl"].filter isMonthFile) = _
    rw [List.filter_singleton,month]
    rfl
  unfold linesIn
  rw [months,List.flatMap_singleton]
  exact lines

end Samples

end PiDispatch.ConsoleAudit
