import PiDispatch.Kernel.JsonRoundTrip
import PiDispatch.WatchStore

/-! Whatever is ingested and taken, in any order and by any clocks: a delivery counts once, the caps of a day hold, and a
finding that was taken stays as it is. -/
namespace PiDispatch.WatchStore
open Kernel JsonText Utf16

abbrev Past := List (Act × Answer)

/-- An answer that a repetition of its delivery gets. -/
def Answer.isKept : Answer → Bool
  | .held _ _ _ | .suppressed _ _ _ | .capped _ => true
  | _ => false

def Answer.heldId : Answer → Option String
  | .held id _ _ => some id
  | _ => none

/-- The delivery has an answer that is kept. -/
def seen (delivery : String) (past : Past) : Bool := past.any fun said => match said with
  | (.ingest other _ _,answer) => other = delivery && answer.isKept
  | _ => false

structure Entry where
  delivery : String
  finding : Finding
  clock : Nat
  answer : Answer
  deriving DecidableEq

/-- The deliveries that were admitted, each where it first was, the latest first. -/
def admitted : Past → List Entry
  | [] => []
  | (.ingest delivery finding clock,answer) :: past =>
    if answer.isKept && !seen delivery past then ⟨delivery,finding,clock,answer⟩ :: admitted past else admitted past
  | _ :: past => admitted past

/-- The deliveries that were the first of their findings. -/
def creations : List Entry → List Entry
  | [] => []
  | entry :: rest =>
    if entry.answer.heldId.any fun id => rest.all fun other => other.answer.heldId ≠ some id then entry :: creations rest
    else creations rest

def onDay (day : Nat) (entries : List Entry) : Nat := (entries.filter fun entry => entry.clock / 86400000 = day).length

/-- The finding that an ingest is added to; none, where it is added to none. -/
def addedTo (config : Config) (store : Store) (delivery : String) (finding : Finding) (clock : Nat) : Option Held :=
  if (validId config.source && validId config.rule.id && validId delivery && matchesWatchFinding config.rule finding) = false then
    none
  else match arguments config delivery finding clock with
    | none => none
    | some (day,fingerprint,_) =>
      if (store.deliveries delivery).isSome ∨ config.sourceMaxPerDay ≤ store.sourceDay day then none
      else (store.lives config fingerprint clock).bind fun active => store.open' active clock

/-- A delivery is added only where the texts of its instants and the finding's are ordered as the instants are. -/
def Sorted (config : Config) : Act → Store → Prop
  | .ingest delivery finding clock,store => ∀ held, addedTo config store delivery finding clock = some held →
      (isoText finding.firstSeen < isoText held.firstSeen ↔ finding.firstSeen < held.firstSeen) ∧
      (isoText held.lastSeen < isoText finding.lastSeen ↔ held.lastSeen < finding.lastSeen)
  | .takeFinding _ _,_ => True

section Steps

variable {config : Config}

/-- What becomes of a delivery that was counted. -/
inductive Judged (config : Config) (store : Store) (day fingerprint id : String) (clock : Nat) (finding : Finding) :
    Answer → Store → Prop
  | added (active : Active) (held : Held) (live : store.active fingerprint = some active)
      (open' : store.open' active clock = some held) :
      Judged config store day fingerprint id clock finding (.held active.id fingerprint (config.recoded active.dueAt))
        { store with findings := Function.update store.findings active.id (some ((held.merged finding).encoded config)) }
  | passed (answer : Answer) (kept : answer.isKept) (none' : answer.heldId = none) :
      Judged config store day fingerprint id clock finding answer store
  | created (held : Held) (next : Store) (due : Nat) (free : store.ruleDay day < config.rule.maxPerDay)
      (evidence : held.toEvidence = finding.toEvidence) (unclaimed : held.claimed = false)
      (findings : next.findings = Function.update store.findings id (some (held.encoded config)))
      (ruleDay : next.ruleDay = Function.update store.ruleDay day (store.ruleDay day + 1))
      (sourceDay : next.sourceDay = store.sourceDay) (deliveries : next.deliveries = store.deliveries) :
      Judged config store day fingerprint id clock finding (.held id fingerprint due) next

private theorem judge_judged (store : Store) (day fingerprint id : String) (clock : Nat) (finding : Finding) :
    Judged config store day fingerprint id clock finding (judge config store day fingerprint id clock finding).1
      (judge config store day fingerprint id clock finding).2 := by
  unfold judge
  split
  next active live =>
    split
    next held found => exact .added active held live found
    · exact .passed _ rfl rfl
  · split
    · exact .passed _ rfl rfl
    next free => exact .created _ _ _ (by omega) rfl rfl rfl rfl rfl rfl

private theorem arguments_given {delivery day fingerprint id : String} {finding : Finding} {clock : Nat}
    (given : arguments config delivery finding clock = some (day,fingerprint,id)) :
    watchFingerprint config finding = some fingerprint ∧ dayOf clock = some day ∧
      id = findingId config fingerprint delivery clock := by
  unfold arguments at given
  obtain ⟨print,found,given⟩ := Option.bind_eq_some_iff.mp given
  obtain ⟨own,on,given⟩ := Option.bind_eq_some_iff.mp given
  obtain ⟨rfl,rfl,rfl⟩ := Prod.mk.inj (Option.some.inj given) |>.imp_right Prod.mk.inj
  exact ⟨found,on,rfl⟩

/-- What an ingest is answered, and what it leaves. -/
inductive Ingested (config : Config) (store : Store) (delivery : String) (finding : Finding) (clock : Nat) :
    Answer → Store → Prop
  | threw : Ingested config store delivery finding clock .threw store
  | unmatched (valid : (validId config.source && validId config.rule.id && validId delivery) = true)
      (other : matchesWatchFinding config.rule finding = false) :
      Ingested config store delivery finding clock .unmatched store
  | repeated (answer : Answer) (valid : (validId config.source && validId config.rule.id && validId delivery) = true)
      (own : matchesWatchFinding config.rule finding = true) (print : (watchFingerprint config finding).isSome)
      (found : store.deliveries delivery = some answer) :
      Ingested config store delivery finding clock answer store
  | sourceCapped : Ingested config store delivery finding clock .sourceCapped store
  | judged (day fingerprint id : String) (answer : Answer) (next : Store)
      (valid : (validId config.source && validId config.rule.id && validId delivery) = true)
      (own : matchesWatchFinding config.rule finding = true)
      (given : arguments config delivery finding clock = some (day,fingerprint,id))
      (fresh : store.deliveries delivery = none) (room : store.sourceDay day < config.sourceMaxPerDay)
      (judged : Judged config (store.counted config day fingerprint clock) day fingerprint id clock finding answer next) :
      Ingested config store delivery finding clock answer
        { next with deliveries := Function.update next.deliveries delivery (some answer) }

private theorem ingest_ingested (store : Store) (delivery : String) (finding : Finding) (clock : Nat) :
    Ingested config store delivery finding clock (ingest config store delivery finding clock).1
      (ingest config store delivery finding clock).2 := by
  unfold ingest
  split
  · exact .threw
  next valid =>
    have valid : (validId config.source && validId config.rule.id && validId delivery) = true := Bool.not_eq_false _ |>.mp valid
    split
    next other => exact .unmatched valid other
    next own =>
      split
      · exact .threw
      next day fingerprint id given =>
        unfold ingestScript
        split
        next answer found =>
          have print := congrArg Option.isSome (arguments_given given).1
          exact .repeated answer valid (Bool.not_eq_false _ |>.mp own) print found
        next fresh =>
          split
          · exact .sourceCapped
          next room =>
            exact .judged day fingerprint id _ _ valid (Bool.not_eq_false _ |>.mp own) given fresh (by omega) (judge_judged ..)

end Steps

section Ledgers

variable {config : Config}

def Entry.isOn (day : String) (entry : Entry) : Bool := dayOf entry.clock = some day

def countedIn (id : String) (entries : List Entry) : List Finding :=
  (entries.filter fun entry => entry.answer.heldId = some id).map Entry.finding

/-- What a stored finding says of the findings that were counted for it. -/
structure Totals (findings : List Finding) (held : Held) : Prop where
  count : held.count = min 1000000 (findings.map fun finding => finding.count).sum
  first : held.firstSeen ∈ findings.map fun finding => finding.firstSeen
  least : ∀ finding ∈ findings, held.firstSeen ≤ finding.firstSeen
  last : held.lastSeen ∈ findings.map fun finding => finding.lastSeen
  greatest : ∀ finding ∈ findings, finding.lastSeen ≤ held.lastSeen

/-- The instants of a stored finding are as they are written back. -/
structure Settled (config : Config) (held : Held) : Prop where
  due : config.recoded held.dueAt = held.dueAt
  created : config.recoded held.createdAt = held.createdAt

private theorem encoded_settled (held : Held) : Settled config (held.encoded config) :=
  ⟨config.settled held.dueAt,config.settled held.createdAt⟩

private theorem encoded_same {held : Held} (settled : Settled config held) : held.encoded config = held := by
  unfold Held.encoded
  rw [settled.due,settled.created]

/-- What the store holds of the deliveries that were admitted. -/
structure Ledger (config : Config) (entries : List Entry) (store : Store) : Prop where
  deliveries : ∀ delivery answer, store.deliveries delivery = some answer ↔
    ∃ finding clock, (⟨delivery,finding,clock,answer⟩ : Entry) ∈ entries
  dated : ∀ entry ∈ entries, (dayOf entry.clock).isSome
  sourceDay : ∀ day, store.sourceDay day = (entries.filter (Entry.isOn day)).length
  sourceCap : ∀ day, store.sourceDay day ≤ config.sourceMaxPerDay
  ruleDay : ∀ day, store.ruleDay day = ((creations entries).filter (Entry.isOn day)).length
  ruleCap : ∀ day, store.ruleDay day ≤ config.rule.maxPerDay
  absent : ∀ id, store.findings id = none → ∀ entry ∈ entries, entry.answer.heldId ≠ some id
  present : ∀ id held, store.findings id = some held → Settled config held ∧
    (∃ entry ∈ entries, entry.answer.heldId = some id) ∧
    ∃ entry ∈ entries, ∃ fingerprint, id = findingId config fingerprint entry.delivery entry.clock
  totals : ∀ id held, store.findings id = some held → Totals (countedIn id entries) held

private theorem clock_bounded {clock : Nat} (dated : (dayOf clock).isSome) : clock ≤ Kernel.maxSafeInteger := by
  unfold dayOf Clock.isoInstant at dated
  split at dated
  · cases dated
  next inside =>
    unfold Kernel.maxSafeInteger
    omega

/-- Of two deliveries, no finding has one identity. -/
private theorem findingId_apart (apart : Function.Injective config.hash) {fingerprint fingerprint' delivery delivery' : String}
    {clock clock' : Nat} (dated : (dayOf clock).isSome) (dated' : (dayOf clock').isSome)
    (same : findingId config fingerprint delivery clock = findingId config fingerprint' delivery' clock') :
    delivery = delivery' := by
  have legible : ∀ (fingerprint delivery : String) (clock : Nat), clock ≤ Kernel.maxSafeInteger → Legible config.numbers
      (.array [word config.source,word config.rule.id,word fingerprint,word delivery,.number (config.numbers.ofNat clock)]) := by
    intro fingerprint delivery clock safe
    refine .array _ ?_
    intro item member
    simp only [List.mem_cons,List.not_mem_nil,or_false] at member
    rcases member with rfl | rfl | rfl | rfl | rfl
    · exact .string _
    · exact .string _
    · exact .string _
    · exact .string _
    · exact .number _ (token_decimal _ (config.numbers.write_ofNat clock safe) (config.numbers.read_decimal clock safe))
  have texts := String.ofList_injective (apart same)
  have one := parse_legible (legible fingerprint delivery clock (clock_bounded dated))
  have other := parse_legible (legible fingerprint' delivery' clock' (clock_bounded dated'))
  rw [texts,other] at one
  have items := JsonValue.array.inj (Option.some.inj one)
  simp only [List.cons.injEq,word,JsonValue.string.injEq,spell_inj] at items
  exact items.2.2.2.1.symm

private theorem totals_first {finding : Finding} {held : Held} (evidence : held.toEvidence = finding.toEvidence) :
    Totals [finding] held := by
  have bounded := finding.counted
  have count : held.count = finding.count := congrArg Evidence.count evidence
  have first : held.firstSeen = finding.firstSeen := congrArg Evidence.firstSeen evidence
  have last : held.lastSeen = finding.lastSeen := congrArg Evidence.lastSeen evidence
  refine ⟨?_,?_,?_,?_,?_⟩
  · simp only [List.map_cons,List.map_nil,List.sum_cons,List.sum_nil,count]
    omega
  · simp [first]
  · simp [first]
  · simp [last]
  · simp [last]

private theorem totals_encoded {findings : List Finding} {held : Held} (totals : Totals findings held) :
    Totals findings (held.encoded config) := ⟨totals.count,totals.first,totals.least,totals.last,totals.greatest⟩

private theorem totals_merged {findings : List Finding} {held : Held} (totals : Totals findings held) {finding : Finding}
    (first : isoText finding.firstSeen < isoText held.firstSeen ↔ finding.firstSeen < held.firstSeen)
    (last : isoText held.lastSeen < isoText finding.lastSeen ↔ held.lastSeen < finding.lastSeen) :
    Totals (finding :: findings) (held.merged finding) := by
  have count := totals.count
  refine ⟨?_,?_,?_,?_,?_⟩
  · unfold Held.merged
    simp only [List.map_cons,List.sum_cons]
    omega
  · unfold Held.merged
    dsimp only
    split
    · exact List.mem_cons_self
    · exact List.mem_cons_of_mem _ totals.first
  · intro other member
    unfold Held.merged
    dsimp only
    rw [if_congr first rfl rfl]
    rcases List.mem_cons.mp member with rfl | old
    · split <;> omega
    · have below := totals.least other old
      split <;> omega
  · unfold Held.merged
    dsimp only
    split
    · exact List.mem_cons_self
    · exact List.mem_cons_of_mem _ totals.last
  · intro other member
    unfold Held.merged
    dsimp only
    rw [if_congr last rfl rfl]
    rcases List.mem_cons.mp member with rfl | old
    · split <;> omega
    · have above := totals.greatest other old
      split <;> omega

end Ledgers

section Admission

variable {config : Config} {entries : List Entry} {store next : Store} {entry : Entry} {day : String}

private theorem isOn_cons (day' : String) (on : dayOf entry.clock = some day) :
    ((entry :: entries).filter (Entry.isOn day')).length =
      (entries.filter (Entry.isOn day')).length + if day' = day then 1 else 0 := by
  have is' : Entry.isOn day' entry = decide (day' = day) := by
    unfold Entry.isOn
    rw [on]
    simp [eq_comm]
  rw [List.filter_cons,is']
  by_cases same : day' = day
  · simp [same]
  · simp [same]

/-- A delivery that is admitted, and what it leaves of the findings. -/
private theorem ledger_admitted (ledger : Ledger config entries store) (on : dayOf entry.clock = some day)
    (fresh : store.deliveries entry.delivery = none) (room : store.sourceDay day < config.sourceMaxPerDay)
    (deliveries : next.deliveries = Function.update store.deliveries entry.delivery (some entry.answer))
    (sourceDay : next.sourceDay = Function.update store.sourceDay day (store.sourceDay day + 1))
    (ruleDay : ∀ day', next.ruleDay day' = ((creations (entry :: entries)).filter (Entry.isOn day')).length)
    (ruleCap : ∀ day', next.ruleDay day' ≤ config.rule.maxPerDay)
    (absent : ∀ id, next.findings id = none → ∀ other ∈ entry :: entries, other.answer.heldId ≠ some id)
    (present : ∀ id held, next.findings id = some held → Settled config held ∧
      (∃ other ∈ entry :: entries, other.answer.heldId = some id) ∧
      ∃ other ∈ entry :: entries, ∃ fingerprint, id = findingId config fingerprint other.delivery other.clock)
    (totals : ∀ id held, next.findings id = some held → Totals (countedIn id (entry :: entries)) held) :
    Ledger config (entry :: entries) next := by
  refine ⟨?_,?_,?_,?_,ruleDay,ruleCap,absent,present,totals⟩
  · intro delivery answer
    rw [deliveries]
    by_cases same : delivery = entry.delivery
    · subst same
      rw [Function.update_self]
      constructor
      · intro told
        obtain rfl := Option.some.inj told
        exact ⟨entry.finding,entry.clock,List.mem_cons_self⟩
      · rintro ⟨finding,clock,member⟩
        rcases List.mem_cons.mp member with own | old
        · exact congrArg (fun entry => some (Entry.answer entry)) own.symm
        · have held := (ledger.deliveries _ _).mpr ⟨finding,clock,old⟩
          rw [fresh] at held
          cases held
    · rw [Function.update_of_ne same,ledger.deliveries]
      constructor
      · rintro ⟨finding,clock,member⟩
        exact ⟨finding,clock,List.mem_cons_of_mem _ member⟩
      · rintro ⟨finding,clock,member⟩
        rcases List.mem_cons.mp member with rfl | old
        · exact absurd rfl same
        · exact ⟨finding,clock,old⟩
  · intro other member
    rcases List.mem_cons.mp member with rfl | old
    · rw [on]
      rfl
    · exact ledger.dated other old
  · intro day'
    rw [sourceDay,isOn_cons day' on]
    by_cases same : day' = day
    · subst same
      rw [Function.update_self,ledger.sourceDay,if_pos rfl]
    · rw [Function.update_of_ne same,ledger.sourceDay,if_neg same]
      rfl
  · intro day'
    rw [sourceDay]
    by_cases same : day' = day
    · subst same
      rw [Function.update_self]
      exact room
    · rw [Function.update_of_ne same]
      exact ledger.sourceCap day'

private theorem countedIn_of_ne {id : String} (other : entry.answer.heldId ≠ some id) :
    countedIn id (entry :: entries) = countedIn id entries := by
  unfold countedIn
  rw [List.filter_cons,if_neg (by simpa using other)]

private theorem countedIn_of_eq {id : String} (own : entry.answer.heldId = some id) :
    countedIn id (entry :: entries) = entry.finding :: countedIn id entries := by
  unfold countedIn
  rw [List.filter_cons,if_pos (by simpa using own),List.map_cons]

private theorem creations_not (later : ∀ id, entry.answer.heldId = some id → ∃ other ∈ entries, other.answer.heldId = some id) :
    creations (entry :: entries) = creations entries := by
  rw [creations]
  refine if_neg ?_
  intro first
  obtain ⟨id,own,alone⟩ := (Option.any_eq_true _ _).mp first
  obtain ⟨other,member,same⟩ := later id own
  exact of_decide_eq_true (List.all_eq_true.mp alone other member) same

private theorem creations_first {id : String} (own : entry.answer.heldId = some id)
    (alone : ∀ other ∈ entries, other.answer.heldId ≠ some id) : creations (entry :: entries) = entry :: creations entries := by
  rw [creations]
  refine if_pos ((Option.any_eq_true _ _).mpr ⟨id,own,?_⟩)
  exact List.all_eq_true.mpr fun other member => decide_eq_true (alone other member)

/-- What holds of a finding that no new delivery touches. -/
private theorem untouched (ledger : Ledger config entries store) {id : String} {held : Held}
    (found : store.findings id = some held) (other : entry.answer.heldId ≠ some id) : (Settled config held ∧
      (∃ other ∈ entry :: entries, other.answer.heldId = some id) ∧
      ∃ other ∈ entry :: entries, ∃ fingerprint, id = findingId config fingerprint other.delivery other.clock) ∧
    Totals (countedIn id (entry :: entries)) held := by
  obtain ⟨settled,⟨e,member,own⟩,⟨e',member',made⟩⟩ := ledger.present id held found
  refine ⟨⟨settled,⟨e,List.mem_cons_of_mem _ member,own⟩,⟨e',List.mem_cons_of_mem _ member',made⟩⟩,?_⟩
  rw [countedIn_of_ne other]
  exact ledger.totals id held found

private theorem ledger_passed (ledger : Ledger config entries store) (on : dayOf entry.clock = some day)
    (fresh : store.deliveries entry.delivery = none) (room : store.sourceDay day < config.sourceMaxPerDay)
    (deliveries : next.deliveries = Function.update store.deliveries entry.delivery (some entry.answer))
    (sourceDay : next.sourceDay = Function.update store.sourceDay day (store.sourceDay day + 1))
    (ruleDay : next.ruleDay = store.ruleDay) (findings : next.findings = store.findings)
    (none' : entry.answer.heldId = none) : Ledger config (entry :: entries) next := by
  have apart : ∀ id, entry.answer.heldId ≠ some id := fun id own => nomatch none'.symm.trans own
  refine ledger_admitted ledger on fresh room deliveries sourceDay ?_ ?_ ?_ ?_ ?_
  · intro day'
    rw [creations_not fun id own => absurd own (apart id),ruleDay,ledger.ruleDay]
  · rw [ruleDay]
    exact ledger.ruleCap
  · intro id gone other member
    rw [findings] at gone
    rcases List.mem_cons.mp member with rfl | old
    · exact apart id
    · exact ledger.absent id gone other old
  · intro id held found
    rw [findings] at found
    exact (untouched ledger found (apart id)).1
  · intro id held found
    rw [findings] at found
    exact (untouched ledger found (apart id)).2

/-- A delivery that is held, as it leaves the finding it is held for. -/
private theorem ledger_held (ledger : Ledger config entries store) (on : dayOf entry.clock = some day)
    (fresh : store.deliveries entry.delivery = none) (room : store.sourceDay day < config.sourceMaxPerDay)
    (deliveries : next.deliveries = Function.update store.deliveries entry.delivery (some entry.answer))
    (sourceDay : next.sourceDay = Function.update store.sourceDay day (store.sourceDay day + 1))
    (ruleDay : ∀ day', next.ruleDay day' = ((creations (entry :: entries)).filter (Entry.isOn day')).length)
    (ruleCap : ∀ day', next.ruleDay day' ≤ config.rule.maxPerDay) {id : String} {held : Held}
    (own : entry.answer.heldId = some id) (settled : Settled config held)
    (findings : next.findings = Function.update store.findings id (some held))
    (made : ∃ other ∈ entry :: entries, ∃ fingerprint, id = findingId config fingerprint other.delivery other.clock)
    (totals : Totals (entry.finding :: countedIn id entries) held) : Ledger config (entry :: entries) next := by
  refine ledger_admitted ledger on fresh room deliveries sourceDay ruleDay ruleCap ?_ ?_ ?_
  · intro id' gone other member
    rw [findings] at gone
    by_cases same : id' = id
    · rw [same,Function.update_self] at gone
      cases gone
    · rw [Function.update_of_ne same] at gone
      rcases List.mem_cons.mp member with rfl | old
      · rw [own]
        exact fun equal => same (Option.some.inj equal).symm
      · exact ledger.absent id' gone other old
  · intro id' held' found
    rw [findings] at found
    by_cases same : id' = id
    · subst same
      rw [Function.update_self] at found
      obtain rfl := Option.some.inj found
      exact ⟨settled,⟨entry,List.mem_cons_self,own⟩,made⟩
    · rw [Function.update_of_ne same] at found
      exact (untouched ledger found fun equal => same (Option.some.inj (own.symm.trans equal)).symm).1
  · intro id' held' found
    rw [findings] at found
    by_cases same : id' = id
    · subst same
      rw [Function.update_self] at found
      obtain rfl := Option.some.inj found
      rw [countedIn_of_eq own]
      exact totals
    · rw [Function.update_of_ne same] at found
      exact (untouched ledger found fun equal => same (Option.some.inj (own.symm.trans equal)).symm).2

end Admission

section Keeping

variable {config : Config} {entries : List Entry} {store next : Store}

/-- What stays of the findings: when each is due, and all of one that was taken. -/
def Lasting (store next : Store) : Prop := ∀ id held, store.findings id = some held →
  ∃ held', next.findings id = some held' ∧ held'.dueAt = held.dueAt ∧ (held.claimed = true → held' = held)

private theorem lasting_same (findings : next.findings = store.findings) : Lasting store next :=
  fun _ held found => ⟨held,findings ▸ found,rfl,fun _ => rfl⟩

private theorem lasting_update {id : String} {held : Held}
    (findings : next.findings = Function.update store.findings id (some held))
    (fits : ∀ old, store.findings id = some old → held.dueAt = old.dueAt ∧ (old.claimed = true → held = old)) :
    Lasting store next := by
  intro other old found
  by_cases same : other = id
  · subst same
    exact ⟨held,by rw [findings,Function.update_self],fits old found⟩
  · exact ⟨old,by rw [findings,Function.update_of_ne same,found],rfl,fun _ => rfl⟩

private theorem open_found {active : Active} {clock : Nat} {held : Held} (found : store.open' active clock = some held) :
    store.findings active.id = some held ∧ held.claimed = false := by
  unfold Store.open' at found
  split at found
  · obtain ⟨stored,unclaimed⟩ := Option.filter_eq_some_iff.mp found
    exact ⟨stored,by simpa using unclaimed⟩
  · cases found

private theorem judged_kept {day fingerprint id : String} {clock : Nat} {finding : Finding} {answer : Answer}
    (judged : Judged config store day fingerprint id clock finding answer next) : answer.isKept = true := by
  cases judged with
  | added => rfl
  | passed answer kept none' => exact kept
  | created => rfl

/-- What an admitted delivery keeps of the ledger, and of the findings. -/
private theorem ledger_judged (apart : Function.Injective config.hash) (ledger : Ledger config entries store)
    {delivery day fingerprint id : String} {finding : Finding} {clock : Nat} {answer : Answer}
    (valid : (validId config.source && validId config.rule.id && validId delivery) = true)
    (matching : matchesWatchFinding config.rule finding = true)
    (given : arguments config delivery finding clock = some (day,fingerprint,id)) (fresh : store.deliveries delivery = none)
    (room : store.sourceDay day < config.sourceMaxPerDay) (sorted : Sorted config (.ingest delivery finding clock) store)
    (judged : Judged config (store.counted config day fingerprint clock) day fingerprint id clock finding answer next) :
    Ledger config (⟨delivery,finding,clock,answer⟩ :: entries)
      { next with deliveries := Function.update next.deliveries delivery (some answer) } ∧
    Lasting store { next with deliveries := Function.update next.deliveries delivery (some answer) } := by
  obtain ⟨_,on,made⟩ := arguments_given given
  cases judged with
  | added active held live opened =>
    have opened : store.open' active clock = some held := opened
    have own : (store.counted config day fingerprint clock).active fingerprint = store.lives config fingerprint clock :=
      Function.update_self fingerprint _ _
    have live := own.symm.trans live
    obtain ⟨stored,unclaimed⟩ := open_found opened
    have adds : addedTo config store delivery finding clock = some held := by
      unfold addedTo
      rw [valid,matching,if_neg (by decide),given]
      dsimp only
      rw [if_neg (by rw [fresh]; simpa using room),live]
      exact opened
    obtain ⟨settled,⟨e,member,own⟩,⟨e',member',origin⟩⟩ := ledger.present _ _ stored
    obtain ⟨first,last⟩ := sorted held adds
    constructor
    · refine ledger_held ledger on fresh room rfl rfl ?_ ledger.ruleCap rfl (encoded_settled (held.merged finding)) rfl
        ⟨e',List.mem_cons_of_mem _ member',origin⟩ ?_
      · intro day'
        rw [creations_not]
        · exact ledger.ruleDay day'
        · intro id' equal
          exact ⟨e,member,own.trans equal⟩
      · exact totals_encoded (totals_merged (ledger.totals _ _ stored) first last)
    · refine lasting_update rfl ?_
      intro old found
      obtain rfl := Option.some.inj (stored.symm.trans found)
      refine ⟨settled.due,?_⟩
      intro claimed
      rw [unclaimed] at claimed
      cases claimed
  | passed answer kept none' =>
    exact ⟨ledger_passed ledger on fresh room rfl rfl rfl rfl none',lasting_same rfl⟩
  | created held next due free evidence unclaimed findings ruleDay sourceDay deliveries =>
    have absent : store.findings id = none := by
      cases found : store.findings id with
      | none => rfl
      | some old =>
        obtain ⟨_,_,⟨e,member,print,origin⟩⟩ := ledger.present id old found
        have same := findingId_apart apart (ledger.dated e member) (by rw [on]; rfl) (origin.symm.trans made)
        have told := (ledger.deliveries e.delivery e.answer).mpr ⟨e.finding,e.clock,member⟩
        rw [same,fresh] at told
        cases told
    have alone := ledger.absent id absent
    have none' : countedIn id entries = [] := by
      unfold countedIn
      rw [List.map_eq_nil_iff,List.filter_eq_nil_iff]
      exact fun other member => by simpa using alone other member
    constructor
    · refine ledger_held ledger on fresh room ?_ ?_ ?_ ?_ rfl (encoded_settled held) findings
        ⟨_,List.mem_cons_self,fingerprint,made⟩ ?_
      · rw [deliveries]
        rfl
      · rw [sourceDay]
        rfl
      · intro day'
        rw [creations_first rfl alone]
        dsimp only
        rw [ruleDay,isOn_cons day' on]
        by_cases same : day' = day
        · subst same
          rw [Function.update_self,if_pos rfl]
          exact congrArg (· + 1) (ledger.ruleDay day')
        · rw [Function.update_of_ne same,if_neg same]
          exact ledger.ruleDay day'
      · intro day'
        dsimp only
        rw [ruleDay]
        by_cases same : day' = day
        · subst same
          rw [Function.update_self]
          exact free
        · rw [Function.update_of_ne same]
          exact ledger.ruleCap day'
      · rw [none']
        exact totals_first evidence
    · refine lasting_update findings ?_
      intro old found
      rw [absent] at found
      cases found

end Keeping

section Histories

variable {config : Config} {store : Store} {past : Past}

/-- What an answer to a delivery says that stays so. -/
def Said (config : Config) (store : Store) (delivery : String) (finding : Finding) (answer : Answer) : Prop :=
  (answer = .unmatched → (validId config.source && validId config.rule.id && validId delivery) = true ∧
    matchesWatchFinding config.rule finding = false) ∧
  (answer.isKept = true → store.deliveries delivery = some answer ∧
    (validId config.source && validId config.rule.id && validId delivery) = true ∧
    matchesWatchFinding config.rule finding = true ∧ (watchFingerprint config finding).isSome)

structure History (config : Config) (past : Past) (store : Store) : Prop where
  ledger : Ledger config (admitted past) store
  seen : ∀ delivery, seen delivery past = (store.deliveries delivery).isSome
  said : ∀ delivery finding clock answer, (.ingest delivery finding clock,answer) ∈ past →
    (answer = .threw ∨ answer = .sourceCapped ∨ answer = .unmatched ∨ answer.isKept = true) ∧
      Said config store delivery finding answer
  taken : ∀ id clock status held, (.takeFinding id clock,.taken status held) ∈ past →
    store.findings id = some held ∧ held.claimed = true ∧ status = held.verdict
  punctual : ∀ earlier id clock answer, ((.takeFinding id clock,answer) :: earlier) <:+ past → validId id = true →
    countedIn id (admitted earlier) ≠ [] → ∀ held, store.findings id = some held → held.dueAt ≤ clock →
    answer = .taken held.verdict held

private theorem admitted_kept (past : Past) : ∀ entry ∈ admitted past, entry.answer.isKept = true := by
  induction past with
  | nil => exact fun _ none => absurd none List.not_mem_nil
  | cons said past ih =>
    obtain ⟨act,answer⟩ := said
    intro entry member
    cases act with
    | ingest delivery finding clock =>
      rw [admitted] at member
      split at member
      next fresh =>
        rcases List.mem_cons.mp member with rfl | old
        · exact (Bool.and_eq_true_iff.mp fresh).1
        · exact ih entry old
      · exact ih entry member
    | takeFinding id clock => exact ih entry member

private theorem admitted_earlier {earlier : Past} (inside : earlier <:+ past) : ∀ entry ∈ admitted earlier, entry ∈ admitted past := by
  obtain ⟨later,rfl⟩ := inside
  induction later with
  | nil => exact fun _ member => member
  | cons said later ih =>
    obtain ⟨act,answer⟩ := said
    intro entry member
    have old := ih entry member
    cases act with
    | ingest delivery finding clock =>
      rw [List.cons_append,admitted]
      split
      · exact List.mem_cons_of_mem _ old
      · exact old
    | takeFinding id clock => exact old

/-- What is said of the past, after a step that keeps what lasts. -/
private theorem history_lasts {next : Store} (history : History config past store) (lasting : Lasting store next)
    (deliveries : ∀ delivery answer, store.deliveries delivery = some answer → next.deliveries delivery = some answer) :
    (∀ delivery finding clock answer, (.ingest delivery finding clock,answer) ∈ past →
      (answer = .threw ∨ answer = .sourceCapped ∨ answer = .unmatched ∨ answer.isKept = true) ∧
        Said config next delivery finding answer) ∧
    (∀ id clock status held, (.takeFinding id clock,.taken status held) ∈ past →
      next.findings id = some held ∧ held.claimed = true ∧ status = held.verdict) ∧
    ∀ earlier id clock answer, ((.takeFinding id clock,answer) :: earlier) <:+ past → validId id = true →
      countedIn id (admitted earlier) ≠ [] → ∀ held, next.findings id = some held → held.dueAt ≤ clock →
      answer = .taken held.verdict held := by
  have taken : ∀ id clock status held, (.takeFinding id clock,.taken status held) ∈ past →
      next.findings id = some held ∧ held.claimed = true ∧ status = held.verdict := by
    intro id clock status held member
    obtain ⟨found,claimed,verdict⟩ := history.taken id clock status held member
    obtain ⟨held',found',_,same⟩ := lasting id held found
    exact ⟨same claimed ▸ found',claimed,verdict⟩
  refine ⟨?_,taken,?_⟩
  · intro delivery finding clock answer member
    obtain ⟨kind,unmatched,kept⟩ := history.said delivery finding clock answer member
    refine ⟨kind,unmatched,?_⟩
    intro is'
    obtain ⟨told,rest⟩ := kept is'
    exact ⟨deliveries delivery answer told,rest⟩
  · intro earlier id clock answer inside valid some' held found due
    have member : (Act.takeFinding id clock,answer) ∈ past := inside.subset List.mem_cons_self
    cases before : store.findings id with
    | none =>
      have none' : countedIn id (admitted earlier) = [] := by
        have absent := history.ledger.absent id before
        unfold countedIn
        rw [List.map_eq_nil_iff,List.filter_eq_nil_iff]
        intro entry inside'
        have old := admitted_earlier ((List.suffix_cons _ _).trans inside) entry inside'
        simpa using absent entry old
      exact absurd none' some'
    | some old =>
      obtain ⟨held',found',due',same⟩ := lasting id old before
      obtain rfl := Option.some.inj (found'.symm.trans found)
      have answered := history.punctual earlier id clock answer inside valid some' old before (due' ▸ due)
      obtain ⟨_,claimed,_⟩ := history.taken id clock old.verdict old (answered ▸ member)
      rw [same claimed]
      exact answered

end Histories

section Stepping

variable {config : Config} {store : Store} {past : Past}

private theorem seen_cons (other delivery : String) (finding : Finding) (clock : Nat) (answer : Answer) :
    seen other ((.ingest delivery finding clock,answer) :: past) =
      ((decide (delivery = other) && answer.isKept) || seen other past) := rfl

/-- An ingest that changes nothing. -/
private theorem history_idle (history : History config past store) {delivery : String} {finding : Finding} {clock : Nat}
    {answer : Answer} (kind : answer = .threw ∨ answer = .sourceCapped ∨ answer = .unmatched ∨ answer.isKept = true)
    (said : Said config store delivery finding answer) :
    History config ((.ingest delivery finding clock,answer) :: past) store := by
  have repeated : answer.isKept = true → seen delivery past = true := by
    intro kept
    rw [history.seen,(said.2 kept).1]
    rfl
  have same : admitted ((.ingest delivery finding clock,answer) :: past) = admitted past := by
    rw [admitted]
    refine if_neg ?_
    intro fresh
    obtain ⟨kept,unseen⟩ := Bool.and_eq_true_iff.mp fresh
    rw [repeated kept] at unseen
    cases unseen
  refine ⟨same ▸ history.ledger,?_,?_,?_,?_⟩
  · intro other
    rw [seen_cons,← history.seen]
    by_cases equal : delivery = other
    · subst equal
      cases kept : answer.isKept with
      | true => simp [repeated kept]
      | false => simp
    · simp [equal]
  · intro delivery' finding' clock' answer' member
    rcases List.mem_cons.mp member with new | old
    · obtain ⟨act,rfl⟩ := Prod.mk.inj new
      obtain ⟨rfl,rfl,rfl⟩ := Act.ingest.inj act
      exact ⟨kind,said⟩
    · exact history.said delivery' finding' clock' answer' old
  · intro id clock' status held member
    rcases List.mem_cons.mp member with new | old
    · cases (Prod.mk.inj new).1
    · exact history.taken id clock' status held old
  · intro earlier id clock' answer' inside
    rcases List.suffix_cons_iff.mp inside with new | old
    · cases (Prod.mk.inj (List.cons.inj new).1).1
    · exact history.punctual earlier id clock' answer' old

private theorem history_ingest (apart : Function.Injective config.hash) (history : History config past store)
    {delivery : String} {finding : Finding} {clock : Nat} (sorted : Sorted config (.ingest delivery finding clock) store)
    {answer : Answer} {next : Store} (ingested : Ingested config store delivery finding clock answer next) :
    History config ((.ingest delivery finding clock,answer) :: past) next := by
  cases ingested with
  | threw => exact history_idle history (.inl rfl) ⟨(fun none => nomatch none),fun none => nomatch none⟩
  | unmatched valid other =>
    exact history_idle history (.inr (.inr (.inl rfl))) ⟨fun _ => ⟨valid,other⟩,fun none => nomatch none⟩
  | sourceCapped => exact history_idle history (.inr (.inl rfl)) ⟨(fun none => nomatch none),fun none => nomatch none⟩
  | repeated answer valid own print found =>
    obtain ⟨finding',clock',member⟩ := (history.ledger.deliveries delivery answer).mp found
    have kept := admitted_kept past _ member
    refine history_idle history (.inr (.inr (.inr kept))) ⟨?_,fun _ => ⟨found,valid,own,print⟩⟩
    rintro rfl
    cases kept
  | judged day fingerprint id answer next valid own given fresh room judged =>
    have kept := judged_kept judged
    have unseen : seen delivery past = false := by
      rw [history.seen,fresh]
      rfl
    have admits : admitted ((.ingest delivery finding clock,answer) :: past) = ⟨delivery,finding,clock,answer⟩ :: admitted past := by
      rw [admitted]
      exact if_pos (by rw [kept,unseen]; rfl)
    obtain ⟨ledger,lasting⟩ := ledger_judged apart history.ledger valid own given fresh room sorted judged
    have deliveries : ∀ delivery' answer', store.deliveries delivery' = some answer' →
        Function.update next.deliveries delivery (some answer) delivery' = some answer' := by
      intro delivery' answer' found
      obtain ⟨finding',clock',member⟩ := (history.ledger.deliveries delivery' answer').mp found
      exact (ledger.deliveries delivery' answer').mpr ⟨finding',clock',List.mem_cons_of_mem _ member⟩
    obtain ⟨said,taken,punctual⟩ := history_lasts history lasting deliveries
    refine ⟨admits ▸ ledger,?_,?_,?_,?_⟩
    · intro other
      rw [seen_cons,kept,Bool.and_true]
      by_cases equal : delivery = other
      · subst equal
        simp
      · rw [decide_eq_false equal,Bool.false_or,history.seen]
        dsimp only
        cases found : store.deliveries other with
        | some answer' => rw [deliveries other answer' found]
        | none =>
          cases later : Function.update next.deliveries delivery (some answer) other with
          | none => rfl
          | some answer' =>
            obtain ⟨finding',clock',member⟩ := (ledger.deliveries other answer').mp later
            rcases List.mem_cons.mp member with new | old
            · exact absurd (congrArg Entry.delivery new).symm equal
            · have told := (history.ledger.deliveries other answer').mpr ⟨finding',clock',old⟩
              rw [found] at told
              cases told
    · intro delivery' finding' clock' answer' member
      rcases List.mem_cons.mp member with new | old
      · obtain ⟨act,rfl⟩ := Prod.mk.inj new
        obtain ⟨rfl,rfl,rfl⟩ := Act.ingest.inj act
        have print := congrArg Option.isSome (arguments_given given).1
        refine ⟨.inr (.inr (.inr kept)),?_,fun _ => ⟨Function.update_self .. ,valid,own,print⟩⟩
        rintro rfl
        cases kept
      · exact said delivery' finding' clock' answer' old
    · intro id clock' status held member
      rcases List.mem_cons.mp member with new | old
      · cases (Prod.mk.inj new).1
      · exact taken id clock' status held old
    · intro earlier id clock' answer' inside
      rcases List.suffix_cons_iff.mp inside with new | old
      · cases (Prod.mk.inj (List.cons.inj new).1).1
      · exact punctual earlier id clock' answer' old

end Stepping

section Takes

variable {config : Config} {store : Store} {past : Past}

/-- What a take is answered, and what it leaves. -/
private theorem take_cases (id : String) (clock : Nat) :
    (takeFinding config store id clock).2 = store ∧ ((takeFinding config store id clock).1 = .threw ∧ validId id = false ∨
      (takeFinding config store id clock).1 = .missing ∧ store.findings id = none ∨
      (∃ held, store.findings id = some held ∧ clock < held.dueAt ∧ (takeFinding config store id clock).1 = .early held.dueAt) ∨
      ∃ held, store.findings id = some held ∧ held.claimed = true ∧
        (takeFinding config store id clock).1 = .taken held.verdict held) ∨
    ∃ held, store.findings id = some held ∧ held.claimed = false ∧
      (takeFinding config store id clock).1 = .taken held.verdict held.taken ∧
      (takeFinding config store id clock).2 =
        { store with findings := Function.update store.findings id (some (held.taken.encoded config)) } := by
  unfold takeFinding
  split
  next invalid => exact .inl ⟨rfl,.inl ⟨rfl,invalid⟩⟩
  · split
    next none' => exact .inl ⟨rfl,.inr (.inl ⟨rfl,none'⟩)⟩
    next held found =>
      split
      next early => exact .inl ⟨rfl,.inr (.inr (.inl ⟨held,found,early,rfl⟩))⟩
      · split
        next claimed => exact .inl ⟨rfl,.inr (.inr (.inr ⟨held,found,claimed,rfl⟩))⟩
        next unclaimed => exact .inr ⟨held,found,Bool.not_eq_true _ |>.mp unclaimed,rfl,rfl⟩

private theorem ledger_claimed {entries : List Entry} (ledger : Ledger config entries store) {id : String} {held taken : Held}
    (found : store.findings id = some held) (settled : Settled config taken)
    (totals : Totals (countedIn id entries) taken) {next : Store}
    (findings : next.findings = Function.update store.findings id (some taken)) (deliveries : next.deliveries = store.deliveries)
    (sourceDay : next.sourceDay = store.sourceDay) (ruleDay : next.ruleDay = store.ruleDay) :
    Ledger config entries next := by
  refine ⟨?_,ledger.dated,?_,?_,?_,?_,?_,?_,?_⟩
  · rw [deliveries]
    exact ledger.deliveries
  · rw [sourceDay]
    exact ledger.sourceDay
  · rw [sourceDay]
    exact ledger.sourceCap
  · rw [ruleDay]
    exact ledger.ruleDay
  · rw [ruleDay]
    exact ledger.ruleCap
  · intro other gone
    rw [findings] at gone
    by_cases same : other = id
    · rw [same,Function.update_self] at gone
      cases gone
    · rw [Function.update_of_ne same] at gone
      exact ledger.absent other gone
  · intro other held' own
    rw [findings] at own
    by_cases same : other = id
    · subst same
      rw [Function.update_self] at own
      obtain rfl := Option.some.inj own
      exact ⟨settled,(ledger.present _ _ found).2⟩
    · rw [Function.update_of_ne same] at own
      exact ledger.present other held' own
  · intro other held' own
    rw [findings] at own
    by_cases same : other = id
    · subst same
      rw [Function.update_self] at own
      obtain rfl := Option.some.inj own
      exact totals
    · rw [Function.update_of_ne same] at own
      exact ledger.totals other held' own

/-- What a take keeps of the ledger and of the findings, and what its answer says. -/
private theorem take_keeps (ledger : Ledger config (admitted past) store) (id : String) (clock : Nat) :
    Ledger config (admitted past) (takeFinding config store id clock).2 ∧
    Lasting store (takeFinding config store id clock).2 ∧
    (takeFinding config store id clock).2.deliveries = store.deliveries ∧
    (∀ status held, (takeFinding config store id clock).1 = .taken status held →
      (takeFinding config store id clock).2.findings id = some held ∧ held.claimed = true ∧ status = held.verdict) ∧
    (validId id = true → countedIn id (admitted past) ≠ [] → ∀ held,
      (takeFinding config store id clock).2.findings id = some held → held.dueAt ≤ clock →
      (takeFinding config store id clock).1 = .taken held.verdict held) := by
  rcases @take_cases config store id clock with ⟨same,idle⟩ | ⟨held,found,unclaimed,told,next⟩
  · rw [same]
    refine ⟨ledger,lasting_same rfl,rfl,?_,?_⟩
    · intro status held answer
      rcases idle with ⟨threw,_⟩ | ⟨missing,_⟩ | ⟨_,_,_,early⟩ | ⟨old,found,claimed,again⟩
      · rw [threw] at answer
        cases answer
      · rw [missing] at answer
        cases answer
      · rw [early] at answer
        cases answer
      · rw [again] at answer
        obtain ⟨rfl,rfl⟩ := Answer.taken.inj answer
        exact ⟨found,claimed,rfl⟩
    · intro valid some' held found due
      rcases idle with ⟨_,invalid⟩ | ⟨_,none'⟩ | ⟨old,found',early,_⟩ | ⟨old,found',_,again⟩
      · rw [invalid] at valid
        cases valid
      · rw [none'] at found
        cases found
      · obtain rfl := Option.some.inj (found.symm.trans found')
        omega
      · obtain rfl := Option.some.inj (found.symm.trans found')
        exact again
  · have settled := (ledger.present id held found).1
    have taken : Settled config held.taken := ⟨settled.due,settled.created⟩
    have totals := ledger.totals id held found
    rw [encoded_same taken] at next
    rw [next,told]
    have claimed : Totals (countedIn id (admitted past)) held.taken :=
      ⟨totals.count,totals.first,totals.least,totals.last,totals.greatest⟩
    refine ⟨ledger_claimed ledger found taken claimed rfl rfl rfl rfl,?_,rfl,?_,?_⟩
    · refine lasting_update rfl ?_
      intro old own
      obtain rfl := Option.some.inj (found.symm.trans own)
      refine ⟨rfl,?_⟩
      intro claimed
      rw [unclaimed] at claimed
      cases claimed
    · intro status held' answer
      obtain ⟨rfl,rfl⟩ := Answer.taken.inj answer
      exact ⟨Function.update_self ..,rfl,rfl⟩
    · intro _ _ held' own _
      dsimp only at own
      rw [Function.update_self] at own
      obtain rfl := Option.some.inj own
      rfl

private theorem history_take (history : History config past store) (id : String) (clock : Nat) :
    History config ((.takeFinding id clock,(takeFinding config store id clock).1) :: past)
      (takeFinding config store id clock).2 := by
  obtain ⟨ledger,lasting,deliveries,fresh,punctual⟩ := take_keeps history.ledger id clock
  obtain ⟨said,taken,punctual'⟩ := history_lasts history lasting fun delivery answer found => deliveries ▸ found
  refine ⟨ledger,?_,?_,?_,?_⟩
  · intro delivery
    rw [deliveries]
    exact history.seen delivery
  · intro delivery finding clock' answer member
    rcases List.mem_cons.mp member with new | old
    · cases (Prod.mk.inj new).1
    · exact said delivery finding clock' answer old
  · intro id' clock' status held member
    rcases List.mem_cons.mp member with new | old
    · obtain ⟨act,answer⟩ := Prod.mk.inj new
      obtain ⟨rfl,rfl⟩ := Act.takeFinding.inj act
      exact fresh status held answer.symm
    · exact taken id' clock' status held old
  · intro earlier id' clock' answer inside
    rcases List.suffix_cons_iff.mp inside with new | old
    · obtain ⟨head,rfl⟩ := List.cons.inj new
      obtain ⟨act,rfl⟩ := Prod.mk.inj head
      obtain ⟨rfl,rfl⟩ := Act.takeFinding.inj act
      exact punctual
    · exact punctual' earlier id' clock' answer old

end Takes

section Results

variable {config : Config} {past : Past} {store : Store}

def counted (id : String) (past : Past) : List Finding := countedIn id (admitted past)

/-- What is so of a watch wherever its deliveries and takes have come. -/
structure Counts (config : Config) (past : Past) (store : Store) : Prop where
  repeated : ∀ delivery finding clock answer, (.ingest delivery finding clock,answer) ∈ past → answer ≠ .threw →
    answer ≠ .sourceCapped → ∀ finding' clock', (dayOf clock').isSome →
    (finding' = finding ∨ answer ≠ .unmatched ∧ matchesWatchFinding config.rule finding' = true ∧
      (watchFingerprint config finding').isSome) →
    step config (.ingest delivery finding' clock') store = (answer,store)
  stored : ∀ id, counted id past ≠ [] → (store.findings id).isSome
  totals : ∀ id held, store.findings id = some held → Totals (counted id past) held
  taken : ∀ id clock status held, (.takeFinding id clock,.taken status held) ∈ past → store.findings id = some held
  punctual : ∀ earlier id clock answer, ((.takeFinding id clock,answer) :: earlier) <:+ past → validId id = true →
    counted id earlier ≠ [] → ∀ held, store.findings id = some held → held.dueAt ≤ clock → answer = .taken held.verdict held
  ruleCap : ∀ day, onDay day (creations (admitted past)) ≤ config.rule.maxPerDay
  sourceCap : ∀ day, onDay day (admitted past) ≤ config.sourceMaxPerDay

private theorem dayOf_number {clock : Nat} (dated : (dayOf clock).isSome) :
    dayOf clock = some (Clock.slice 10 (Clock.isoDate (Clock.civil ((clock / 86400000 : Nat) : Int)))) := by
  unfold dayOf Clock.isoInstant at dated ⊢
  split at dated
  · cases dated
  next inside =>
    rw [if_neg inside]
    have long := Clock.isoDate_length (Clock.civil ((clock / 86400000 : Nat) : Int))
    simp only [Option.map_some,Clock.slice,List.append_assoc,List.cons_append]
    rw [show ((clock : Int) / 86400000) = ((clock / 86400000 : Nat) : Int) by omega,List.take_append_of_le_length long]

private theorem onDay_bounded {entries : List Entry} {most : Nat} (dated : ∀ entry ∈ entries, (dayOf entry.clock).isSome)
    (bounded : ∀ day, (entries.filter (Entry.isOn day)).length ≤ most) (day : Nat) : onDay day entries ≤ most := by
  refine Nat.le_trans ?_ (bounded (Clock.slice 10 (Clock.isoDate (Clock.civil (day : Int)))))
  unfold onDay
  rw [← List.countP_eq_length_filter,← List.countP_eq_length_filter]
  refine List.countP_mono_left ?_
  intro entry member same
  have same : entry.clock / 86400000 = day := of_decide_eq_true same
  unfold Entry.isOn
  rw [dayOf_number (dated entry member),same]
  exact decide_eq_true rfl

private theorem creations_among (entries : List Entry) : ∀ entry ∈ creations entries, entry ∈ entries := by
  induction entries with
  | nil => exact fun _ member => member
  | cons entry rest ih =>
    intro other member
    rw [creations] at member
    split at member
    · rcases List.mem_cons.mp member with rfl | old
      · exact List.mem_cons_self
      · exact List.mem_cons_of_mem _ (ih other old)
    · exact List.mem_cons_of_mem _ (ih other member)

private theorem ingest_again (history : History config past store) {delivery : String} {finding : Finding} {clock : Nat}
    {answer : Answer} (member : (.ingest delivery finding clock,answer) ∈ past) (ran : answer ≠ .threw)
    (counted : answer ≠ .sourceCapped) {finding' : Finding} {clock' : Nat} (dated : (dayOf clock').isSome)
    (same : finding' = finding ∨ answer ≠ .unmatched ∧ matchesWatchFinding config.rule finding' = true ∧
      (watchFingerprint config finding').isSome) : ingest config store delivery finding' clock' = (answer,store) := by
  obtain ⟨kind,unmatched,kept⟩ := history.said delivery finding clock answer member
  unfold ingest
  rcases kind with threw | capped | rfl | is'
  · exact absurd threw ran
  · exact absurd capped counted
  · obtain ⟨valid,other⟩ := unmatched rfl
    rcases same with rfl | ⟨never,_⟩
    · rw [if_neg (by rw [valid]; decide),if_pos other]
    · exact absurd rfl never
  · obtain ⟨told,valid,own,print⟩ := kept is'
    have fits : matchesWatchFinding config.rule finding' = true ∧ (watchFingerprint config finding').isSome := by
      rcases same with rfl | ⟨_,fits⟩
      · exact ⟨own,print⟩
      · exact fits
    obtain ⟨fingerprint,found⟩ := Option.isSome_iff_exists.mp fits.2
    obtain ⟨day,on⟩ := Option.isSome_iff_exists.mp dated
    have given : arguments config delivery finding' clock' = some (day,fingerprint,findingId config fingerprint delivery clock') := by
      unfold arguments
      rw [found,on]
      rfl
    rw [if_neg (by rw [valid]; decide),if_neg (by rw [fits.1]; decide),given]
    unfold ingestScript
    simp only [told]

/-- In every run in which deliveries are added only where the texts of the instants are ordered as the instants are, each
delivery counts once, the caps of a day hold, and a finding that was taken stays as it is. -/
theorem watch_counts (apart : Function.Injective config.hash) (run : Runs (step config) (Sorted config) Store.empty past store) :
    Counts config past store := by
  have history : History config past store := by
    refine Runs.invariant (History config) ?_ ?_ run
    · have none' : ∀ {α : Type} {p : α → Prop}, ∀ entry ∈ ([] : List α), p entry := fun _ none => absurd none List.not_mem_nil
      refine ⟨⟨?_,none',fun _ => rfl,fun _ => Nat.zero_le _,fun _ => rfl,fun _ => Nat.zero_le _,fun _ _ => none',?_,?_⟩,fun _ => rfl,
        ?_,?_,?_⟩
      · intro delivery answer
        exact ⟨(fun none => nomatch none),fun ⟨_,_,member⟩ => absurd member List.not_mem_nil⟩
      · exact fun _ _ found => nomatch found
      · exact fun _ _ found => nomatch found
      · exact fun _ _ _ _ member => absurd member List.not_mem_nil
      · exact fun _ _ _ _ member => absurd member List.not_mem_nil
      · intro earlier id clock answer inside
        cases List.suffix_nil.mp inside
    · intro past store act history sorted
      cases act with
      | ingest delivery finding clock => exact history_ingest apart history sorted (ingest_ingested ..)
      | takeFinding id clock => exact history_take history id clock
  have dated := history.ledger.dated
  refine ⟨?_,?_,history.ledger.totals,?_,history.punctual,?_,?_⟩
  · intro delivery finding clock answer member ran counted finding' clock' dated same
    exact ingest_again history member ran counted dated same
  · intro id some'
    cases found : store.findings id with
    | some held => rfl
    | none =>
      have absent := history.ledger.absent id found
      refine absurd ?_ some'
      unfold counted countedIn
      rw [List.map_eq_nil_iff,List.filter_eq_nil_iff]
      exact fun entry member => by simpa using absent entry member
  · exact fun id clock status held member => (history.taken id clock status held member).1
  · refine onDay_bounded (fun entry member => dated entry (creations_among _ entry member)) ?_
    intro day
    rw [← history.ledger.ruleDay]
    exact history.ledger.ruleCap day
  · refine onDay_bounded dated ?_
    intro day
    rw [← history.ledger.sourceDay]
    exact history.ledger.sourceCap day

end Results

section Samples

def checkoutText : String := "[\"prod\",\"errors\",[[\"service\",\"checkout\"]]]"
def checkoutPrint : String := "7ca3f26a05a96b4c922565529afa20e7178dfffe99a1a2fecb2dca34c6d7c06d"
def firstText : String := "[\"prod\",\"errors\",\"" ++ checkoutPrint ++ "\",\"one\",1767225600000]"
def firstId : String := "c4911e377c618744c491d0ad31f88f2381319f51123af018480177b3035821bb"
def secondText : String := "[\"prod\",\"errors\",\"" ++ checkoutPrint ++ "\",\"two\",1767225600001]"
def secondId : String := "2c69aebeeda9673a33e578f12e84e127d7d27c200f66d8937ebc82f3b9f24590"

/-- The hashes of those three texts, and of no others. -/
def threeHashes : Equiv.Perm String :=
  (Equiv.swap checkoutText checkoutPrint).trans ((Equiv.swap firstText firstId).trans (Equiv.swap secondText secondId))

def errorsRule : Rule := ⟨"errors",none,[],["service"],5,600000,21600000,4,256⟩

def prodErrors : Config := ⟨"prod",errorsRule,1000,threeHashes,wholeNumbers,id,fun _ => rfl⟩

def checkout (count : Nat) (counted : 1 ≤ count ∧ count ≤ 1000000) (instant : Int) : Finding :=
  ⟨⟨[("service","checkout")],.error,count,instant,instant,["private evidence"],""⟩,counted,Int.le_refl instant,
    Nat.le_add_left 1 7⟩

/-- Two deliveries for one finding, and a worker who takes it when it is due. -/
def taken : List Act :=
  [.ingest "one" (checkout 3 (by decide) 1767225600000) 1767225600000,
    .ingest "two" (checkout 2 (by decide) 1767225500000) 1767225600001,.takeFinding firstId 1767226200000]

/-- The second delivery's instants are of the year 10000. -/
def farYear : List Act :=
  [.ingest "one" (checkout 3 (by decide) 1767225600000) 1767225600000,
    .ingest "two" (checkout 2 (by decide) 253402300800000) 1767225600001]

instance (act : Act) (store : Store) : Decidable (Sorted prodErrors act store) :=
  match act with
  | .ingest delivery finding clock => decidable_of_iff ((addedTo prodErrors store delivery finding clock).all fun held =>
      decide ((isoText finding.firstSeen < isoText held.firstSeen ↔ finding.firstSeen < held.firstSeen) ∧
        (isoText held.lastSeen < isoText finding.lastSeen ↔ held.lastSeen < finding.lastSeen)))
      (by
        cases found : addedTo prodErrors store delivery finding clock with
        | none => simp [Sorted,found]
        | some held => simp [Sorted,found])
  | .takeFinding _ _ => isTrue trivial

private theorem taken_sorted : Guarded (step prodErrors) (Sorted prodErrors) .empty taken := by
  refine ⟨?_,?_,?_,trivial⟩
  · decide +kernel
  · decide +kernel
  · exact trivial

theorem watch_counts_taken : Counts prodErrors (answered (step prodErrors) .empty taken) (after (step prodErrors) .empty taken) :=
  watch_counts threeHashes.injective (runs_guarded _ _ _ _ taken_sorted)

/-- A finding of the year 10000 comes to be the first seen of one of 2026. -/
theorem far_year_first :
    ¬∀ (config : Config) (past : Past) (store : Store), Function.Injective config.hash →
      Runs (step config) (fun _ _ => True) Store.empty past store →
      ∀ id held, store.findings id = some held → ∀ finding ∈ counted id past, held.firstSeen ≤ finding.firstSeen := by
  intro least
  have run := runs_after (step prodErrors) Store.empty farYear
  obtain ⟨late,early⟩ : (((after (step prodErrors) .empty farYear).findings firstId).any fun held =>
      decide (1767225600000 < held.firstSeen)) = true ∧
      (checkout 3 (by decide) 1767225600000) ∈ counted firstId (answered (step prodErrors) .empty farYear) := by
    decide +kernel
  obtain ⟨held,found,late⟩ := (Option.any_eq_true _ _).mp late
  have first := least prodErrors _ _ threeHashes.injective run firstId held found _ early
  have late : 1767225600000 < held.firstSeen := of_decide_eq_true late
  exact absurd first (not_le.mpr late)

end Samples

end PiDispatch.WatchStore
