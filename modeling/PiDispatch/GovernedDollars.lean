import PiDispatch.Allocation
import PiDispatch.ScopedLimits

/-! The dollar ledgers of a governed job: what the operator set, narrowed by the applied split in the envelope's
window. A row's amounts stand as the integer micro-dollars that they were read as. -/
namespace PiDispatch.GovernedDollars
open Kernel Priorities Allocation

/-- The dollar windows of a limits row. -/
structure LimitRow where
  scope : String
  dayUsd : Option Int
  weekUsd : Option Int
  monthUsd : Option Int

structure ScopeLedger where
  scope : String
  keyPrefix : String
  caps : Caps
  deriving DecidableEq

def usdCaps (row : LimitRow) : Option Caps :=
  if row.dayUsd = none ∧ row.weekUsd = none ∧ row.monthUsd = none then none
  else some ⟨row.dayUsd,row.weekUsd,row.monthUsd⟩

def rowLedger (hash16 : String → String) (row : LimitRow) : Option ScopeLedger :=
  (usdCaps row).map fun caps => ⟨row.scope,ScopedLimits.scopeDollarKeyPrefix hash16 row.scope,caps⟩

/-- Of the row that the job's scope matched. -/
def dollarCapsFor (hash16 : String → String) (row : Option LimitRow) : Option ScopeLedger := row.bind (rowLedger hash16)

def projectScope (id : String) : String := "project:" ++ id

def projectRowFor (limits : List LimitRow) (projectId : Option String) : Option LimitRow :=
  projectId.bind fun id => if isProjectId id then limits.find? fun row => row.scope = projectScope id else none

def projectDollarCapsFor (hash16 : String → String) (limits : List LimitRow) (projectId : Option String) :
    Option ScopeLedger := (projectRowFor limits projectId).bind (rowLedger hash16)

/-- `row` is the ledger of the row that the member's jobs match. -/
def memberDollarKeyPrefix (hash16 : String → String) (member : String) (row : Option ScopeLedger) : String :=
  (row.map ScopeLedger.keyPrefix).getD (ScopedLimits.scopeDollarKeyPrefix hash16 member)

def windowOf : Priorities.Window → WindowName
  | .day => .day
  | .week => .week
  | .month => .month

def withCap (caps : Caps) (name : WindowName) (amount : Int) : Caps :=
  match name with
  | .day => { caps with day := some amount }
  | .week => { caps with week := some amount }
  | .month => { caps with month := some amount }

/-- Whose number a cap is. -/
inductive CapSource
  | operator
  | allocation
  deriving DecidableEq

structure CapSources where
  day : Option CapSource
  week : Option CapSource
  month : Option CapSource
  deriving DecidableEq

def sourceOf (caps : Caps) : CapSources :=
  ⟨caps.day.map fun _ => .operator,caps.week.map fun _ => .operator,caps.month.map fun _ => .operator⟩

def withSourceAt (sources : CapSources) : WindowName → CapSources
  | .day => { sources with day := some .allocation }
  | .week => { sources with week := some .allocation }
  | .month => { sources with month := some .allocation }

def noCaps : Caps := ⟨none,none,none⟩

/-- The amount binds where the operator set no cap or a larger one; a tie is the operator's. -/
def narrowCaps (name : WindowName) (caps : Caps) (amount : Int) : Caps × CapSources :=
  if (caps.cap name).all fun cap => amount < cap then (withCap caps name amount,withSourceAt (sourceOf caps) name)
  else (caps,sourceOf caps)

structure GovernedLedger extends ScopeLedger where
  capSource : CapSources
  deriving DecidableEq

/-- A ledger's caps narrowed in one window; with no ledger, one of that cap alone under the given key. -/
def narrow (name : WindowName) (ledger : Option ScopeLedger) (scope : String) (amount : Int) (keyPrefix : String) :
    GovernedLedger :=
  let base := ledger.getD ⟨scope,keyPrefix,noCaps⟩
  ⟨{ base with caps := (narrowCaps name base.caps amount).1 },(narrowCaps name base.caps amount).2⟩

def withSource (ledger : Option ScopeLedger) : Option GovernedLedger := ledger.map fun ledger => ⟨ledger,sourceOf ledger.caps⟩

/-- The pickup's project and its member. -/
structure Member where
  id : String
  member : String

structure Operator where
  dollarCaps : Option Caps
  scopedDollars : Option ScopeLedger
  projectDollars : Option ScopeLedger

structure Governed where
  dollarCaps : Caps
  dollarCapSource : CapSources
  scopedDollars : Option GovernedLedger
  projectDollars : Option GovernedLedger
  otherDollars : Option GovernedLedger
  deriving DecidableEq

/-- The envelope's entry that the job draws on: its project's, or `_other`'s. -/
def entryOf (envelope : Envelope) : Option Member → String
  | some member => if member.id ∈ envelopeEntries envelope ∧ member.id ≠ OTHER then member.id else OTHER
  | none => OTHER

/-- The share that the plan gave the member's repo. -/
def shareOf (scopeRef : String → String) (state : State) (entry : String) (member : Option Member) : Option (String × Int) :=
  member.bind fun member => (state.repos.get? entry).bind fun shares =>
    (shares.get? (scopeRef member.member)).bind fun share =>
      if isSafeInteger share then some (member.member,share) else none

def governedDollars (hash16 scopeRef : String → String) (envelope : Envelope) (state : State) (member : Option Member)
    (operator : Operator) : Governed :=
  let name := windowOf envelope.window
  let entry := entryOf envelope member
  let deployment := narrowCaps name (operator.dollarCaps.getD noCaps) envelope.totalMicros
  if entry = OTHER then
    { dollarCaps := deployment.1
      dollarCapSource := deployment.2
      scopedDollars := withSource operator.scopedDollars
      projectDollars := withSource operator.projectDollars
      otherDollars := some (narrow name none (projectScope OTHER) (amountOf state.vector OTHER)
        (ScopedLimits.scopeDollarKeyPrefix hash16 (projectScope OTHER))) }
  else
    { dollarCaps := deployment.1
      dollarCapSource := deployment.2
      scopedDollars := match shareOf scopeRef state entry member with
        | none => withSource operator.scopedDollars
        | some (scope,share) => some (narrow name operator.scopedDollars scope share
          (memberDollarKeyPrefix hash16 scope operator.scopedDollars))
      projectDollars := some (narrow name operator.projectDollars (projectScope entry) (amountOf state.vector entry)
        (ScopedLimits.scopeDollarKeyPrefix hash16 (projectScope entry)))
      otherDollars := none }

/-- A stored split of the envelope: its vector fits, and its repo shares are those of its own allocations. -/
structure ValidSplit (envelope : Envelope) (state : State) : Prop where
  fits : Fits envelope state.vector
  shares : ∃ repos, repoShares state.vector.allocations repos = .ok state.repos

/-- No cap above what the operator set for the window, and none dropped. -/
def Under (caps operator : Caps) : Prop := ∀ name, ∀ cap ∈ operator.cap name, ∃ own ∈ caps.cap name, own ≤ cap

/-- The window has a cap, at most the amount. -/
def Capped (caps : Caps) (name : WindowName) (amount : Int) : Prop := ∃ cap ∈ caps.cap name, cap ≤ amount

/-- The ledger of the envelope's entry. -/
def entryLedger (envelope : Envelope) (member : Option Member) (governed : Governed) : Option GovernedLedger :=
  if entryOf envelope member = OTHER then governed.otherDollars else governed.projectDollars

/-- An operator's row keeps its key and is not widened. -/
def RowKept (row : Option ScopeLedger) (governed : Option GovernedLedger) : Prop :=
  ∀ ledger ∈ row, ∃ own ∈ governed, own.keyPrefix = ledger.keyPrefix ∧ Under own.caps ledger.caps

/-- What a governed job's ledgers are against the operator's rows and the split. -/
structure Narrowed (hash16 scopeRef : String → String) (envelope : Envelope) (state : State) (member : Option Member)
    (operator : Operator) (governed : Governed) : Prop where
  deployment : Under governed.dollarCaps (operator.dollarCaps.getD noCaps) ∧
    Capped governed.dollarCaps (windowOf envelope.window) envelope.totalMicros
  scopeRow : RowKept operator.scopedDollars governed.scopedDollars
  projectRow : RowKept operator.projectDollars governed.projectDollars
  entry : ∃ own ∈ entryLedger envelope member governed,
    Capped own.caps (windowOf envelope.window) (amountOf state.vector (entryOf envelope member)) ∧
    (entryOf envelope member = OTHER ∨ operator.projectDollars = none →
      own.keyPrefix = ScopedLimits.scopeDollarKeyPrefix hash16 (projectScope (entryOf envelope member)))
  single : if entryOf envelope member = OTHER then governed.projectDollars = withSource operator.projectDollars
    else governed.otherDollars = none
  share : entryOf envelope member ≠ OTHER → ∀ own ∈ member, ∀ shares ∈ state.repos.get? (entryOf envelope member),
    ∀ share ∈ shares.get? (scopeRef own.member), ∃ ledger ∈ governed.scopedDollars,
      Capped ledger.caps (windowOf envelope.window) share ∧ share ≤ amountOf state.vector (entryOf envelope member) ∧
      (operator.scopedDollars = none → ledger.keyPrefix = ScopedLimits.scopeDollarKeyPrefix hash16 own.member)

section Caps

private theorem withCap_same (caps : Caps) (name : WindowName) (amount : Int) :
    (withCap caps name amount).cap name = some amount := by cases name <;> rfl

private theorem withCap_other (caps : Caps) {name other : WindowName} (amount : Int) (apart : other ≠ name) :
    (withCap caps name amount).cap other = caps.cap other := by
  cases name <;> cases other <;> first | rfl | exact absurd rfl apart

private theorem narrowCaps_under (name : WindowName) (caps : Caps) (amount : Int) :
    Under (narrowCaps name caps amount).1 caps := by
  intro other cap set
  unfold narrowCaps
  split
  next binds =>
    rcases eq_or_ne other name with rfl | apart
    · have set : caps.cap other = some cap := set
      rw [set] at binds
      have less : amount < cap := by simpa using binds
      exact ⟨amount,withCap_same caps other amount,less.le⟩
    · exact ⟨cap,by rw [withCap_other caps amount apart]; exact set,le_rfl⟩
  · exact ⟨cap,set,le_rfl⟩

private theorem narrowCaps_capped (name : WindowName) (caps : Caps) (amount : Int) :
    Capped (narrowCaps name caps amount).1 name amount := by
  unfold narrowCaps
  split
  · exact ⟨amount,withCap_same caps name amount,le_rfl⟩
  next holds =>
    cases set : caps.cap name with
    | none => simp [set] at holds
    | some cap =>
      have less : cap ≤ amount := by simpa [set] using holds
      exact ⟨cap,set,less⟩

private theorem withSource_kept (row : Option ScopeLedger) : RowKept row (withSource row) := by
  intro ledger member
  have set : row = some ledger := member
  subst set
  exact ⟨⟨ledger,sourceOf ledger.caps⟩,rfl,rfl,fun _ cap set => ⟨cap,set,le_rfl⟩⟩

private theorem narrow_kept (name : WindowName) (row : Option ScopeLedger) (scope : String) (amount : Int)
    (keyPrefix : String) : RowKept row (some (narrow name row scope amount keyPrefix)) := by
  intro ledger member
  have set : row = some ledger := member
  subst set
  exact ⟨_,rfl,rfl,narrowCaps_under name ledger.caps amount⟩

private theorem narrow_key {name : WindowName} {row : Option ScopeLedger} {scope : String} {amount : Int}
    {keyPrefix : String} (bare : row = none) : (narrow name row scope amount keyPrefix).keyPrefix = keyPrefix := by
  subst bare
  rfl

end Caps

section Split
variable {hash16 scopeRef : String → String} {envelope : Envelope} {state : State}

private theorem entry_named {member : Option Member} (own : entryOf envelope member ≠ OTHER) :
    entryOf envelope member ∈ envelopeEntries envelope := by
  cases member with
  | none => exact absurd rfl own
  | some member =>
    unfold entryOf at own ⊢
    dsimp only at own ⊢
    split at own
    next named =>
      rw [if_pos named]
      exact named.1
    · exact absurd rfl own

private theorem share_within (split : ValidSplit envelope state) {entry ref : String} {shares : Dict String Int}
    {share : Int} (project : state.repos.get? entry = some shares) (given : shares.get? ref = some share) :
    0 ≤ share ∧ share ≤ amountOf state.vector entry := by
  obtain ⟨repos,made⟩ := split.shares
  exact repoShares_entry made project share ((shares.mem_values_iff share).mpr ⟨ref,given⟩)

private theorem share_safe (formed : envelope.WellFormed) (split : ValidSplit envelope state) {entry ref : String}
    {shares : Dict String Int} {share : Int} (named : entry ∈ envelopeEntries envelope)
    (project : state.repos.get? entry = some shares) (given : shares.get? ref = some share) : isSafeInteger share := by
  obtain ⟨low,high⟩ := share_within split project given
  obtain ⟨amounts,-,-⟩ := fits_bounded formed split.fits
  rw [← split.fits.keys,← Dict.get?_isSome_iff,Option.isSome_iff_exists] at named
  obtain ⟨amount,found⟩ := named
  have bounds := amounts amount ((state.vector.allocations.mem_values_iff amount).mpr ⟨entry,found⟩)
  have value : amountOf state.vector entry = amount := by simp [amountOf,found]
  have most := micros_of_total formed low (by omega)
  exact ⟨by have least := most.1; unfold maxSafeInteger; omega,most.2⟩

theorem governedDollars_narrowed (formed : envelope.WellFormed) (split : ValidSplit envelope state)
    (member : Option Member) (operator : Operator) :
    Narrowed hash16 scopeRef envelope state member operator
      (governedDollars hash16 scopeRef envelope state member operator) := by
  unfold governedDollars
  dsimp only
  split
  next other =>
    refine ⟨⟨narrowCaps_under _ _ _,narrowCaps_capped _ _ _⟩,withSource_kept _,withSource_kept _,?_,?_,?_⟩
    · refine ⟨_,by rw [entryLedger,if_pos other]; rfl,?_,fun _ => ?_⟩
      · rw [other]
        exact narrowCaps_capped _ _ _
      · rw [other]
        exact narrow_key rfl
    · rw [if_pos other]
    · exact fun apart => absurd other apart
  next apart =>
    refine ⟨⟨narrowCaps_under _ _ _,narrowCaps_capped _ _ _⟩,?_,narrow_kept _ _ _ _ _,?_,?_,?_⟩
    · dsimp only
      split
      · exact withSource_kept _
      · exact narrow_kept _ _ _ _ _
    · refine ⟨_,by rw [entryLedger,if_neg apart]; rfl,narrowCaps_capped _ _ _,?_⟩
      rintro (other | bare)
      · exact absurd other apart
      · exact narrow_key bare
    · rw [if_neg apart]
    · intro _ own member_own shares project share given
      have set : member = some own := member_own
      subst set
      have safe := share_safe formed split (entry_named apart) project given
      have project : state.repos.get? (entryOf envelope (some own)) = some shares := project
      have given : shares.get? (scopeRef own.member) = some share := given
      have found : shareOf scopeRef state (entryOf envelope (some own)) (some own) = some (own.member,share) := by
        simp [shareOf,project,given,safe]
      dsimp only
      rw [found]
      refine ⟨_,rfl,narrowCaps_capped _ _ _,(share_within split project given).2,fun bare => ?_⟩
      rw [bare]
      exact narrow_key rfl

end Split

section Sources

theorem projectDollarCapsFor_key {hash16 : String → String} {limits : List LimitRow} {id : String} {ledger : ScopeLedger}
    (row : projectDollarCapsFor hash16 limits (some id) = some ledger) :
    ledger.keyPrefix = ScopedLimits.scopeDollarKeyPrefix hash16 (projectScope id) := by
  unfold projectDollarCapsFor projectRowFor at row
  obtain ⟨found,matched,shaped⟩ := Option.bind_eq_some_iff.mp row
  rw [Option.bind_some] at matched
  split at matched
  · have scope := List.find?_some matched
    obtain ⟨caps,-,rfl⟩ := Option.map_eq_some_iff.mp shaped
    dsimp only
    rw [of_decide_eq_true scope]
  · cases matched

/-- An entry's ledger has one key, whether the operator has a row for its project or not. -/
theorem governed_entry_key {hash16 scopeRef : String → String} {envelope : Envelope} (formed : envelope.WellFormed)
    {state : State} (split : ValidSplit envelope state) (member : Option Member) (operator : Operator)
    (limits : List LimitRow) (rows : operator.projectDollars = projectDollarCapsFor hash16 limits (member.map Member.id)) :
    ∃ own ∈ entryLedger envelope member (governedDollars hash16 scopeRef envelope state member operator),
      own.keyPrefix = ScopedLimits.scopeDollarKeyPrefix hash16 (projectScope (entryOf envelope member)) := by
  have narrowed := @governedDollars_narrowed hash16 scopeRef _ _ formed split member operator
  obtain ⟨own,held,-,key⟩ := narrowed.entry
  refine ⟨own,held,?_⟩
  rcases eq_or_ne (entryOf envelope member) OTHER with other | apart
  · exact key (.inl other)
  · cases row : operator.projectDollars with
    | none => exact key (.inr row)
    | some ledger =>
      obtain ⟨kept,stands,same,-⟩ := narrowed.projectRow ledger row
      have held : entryLedger envelope member _ = some own := held
      have stands : Governed.projectDollars _ = some kept := stands
      rw [entryLedger,if_neg apart,stands] at held
      obtain rfl := Option.some.inj held
      cases member with
      | none => exact absurd rfl apart
      | some member =>
        rw [row,Option.map_some] at rows
        rw [same,projectDollarCapsFor_key rows.symm]
        unfold entryOf at apart ⊢
        dsimp only at apart ⊢
        split at apart
        next named => rw [if_pos named]
        · exact absurd rfl apart

end Sources

/-- The cap that an entry's ledger has in the envelope's window. -/
def entryCap (envelope : Envelope) (member : Option Member) (governed : Governed) : Int :=
  (((entryLedger envelope member governed).bind fun ledger => ledger.caps.cap (windowOf envelope.window)).getD 0)

/-- Delegation only narrows: no operator's cap is raised, and one job from each entry, whatever the rows it meets,
has caps that together stay within the envelope's total. -/
theorem delegation_narrows (hash16 scopeRef : String → String) {envelope : Envelope} (formed : envelope.WellFormed)
    {state : State} (split : ValidSplit envelope state) :
    (∀ member operator, Narrowed hash16 scopeRef envelope state member operator
      (governedDollars hash16 scopeRef envelope state member operator)) ∧
    ∀ jobs : String → Option Member × Operator, (∀ id ∈ envelopeEntries envelope, entryOf envelope (jobs id).1 = id) →
      ((envelopeEntries envelope).map fun id => entryCap envelope (jobs id).1
        (governedDollars hash16 scopeRef envelope state (jobs id).1 (jobs id).2)).sum ≤ envelope.totalMicros := by
  have each : ∀ member operator, Narrowed hash16 scopeRef envelope state member operator
      (governedDollars hash16 scopeRef envelope state member operator) := governedDollars_narrowed formed split
  refine ⟨each,fun jobs own => ?_⟩
  have under : ∀ id ∈ envelopeEntries envelope, entryCap envelope (jobs id).1
      (governedDollars hash16 scopeRef envelope state (jobs id).1 (jobs id).2) ≤ amountOf state.vector id := by
    intro id named
    obtain ⟨ledger,held,⟨cap,set,most⟩,-⟩ := (each (jobs id).1 (jobs id).2).entry
    have held : entryLedger envelope (jobs id).1 _ = some ledger := held
    have set : ledger.caps.cap (windowOf envelope.window) = some cap := set
    rw [own id named] at most
    simpa [entryCap,held,set] using most
  have sum := split.fits.sum
  have left := split.fits.unallocated
  rw [Dict.values_eq_map _ 0,split.fits.keys] at sum
  calc ((envelopeEntries envelope).map fun id => entryCap envelope (jobs id).1
        (governedDollars hash16 scopeRef envelope state (jobs id).1 (jobs id).2)).sum
      ≤ ((envelopeEntries envelope).map (amountOf state.vector)).sum := List.sum_le_sum under
    _ ≤ envelope.totalMicros := by unfold amountOf; omega

section Samples

def oneHash (_ : String) : String := "0123456789abcdef"

def webRef (scope : String) : String := if scope = "github:acme/web" then "1f2e3d4c" else "00000000"

def twoProjects : Envelope where
  window := .week
  totalMicros := 10000000
  floors := .ofList [("_other",0),("alpha",1000000)]
  defaultWeights := .ofList [("_other",some 1),("alpha",some 1)]
  delegation := ⟨true,[.operatorSession],some 10,some 24,some 14⟩

def alphaSplit : State where
  planId := some "722b0f87dc9ee953"
  basis := none
  writer := .plan .operatorSession
  jobId := none
  triggerId := none
  appliedAt := 1782864000000
  lastPlanAt := some 1782864000000
  validUntil := some 1784073600000
  envelopeDigest := "c02c85c2f6a638b2"
  weights := .ofList [("_other",1),("alpha",1)]
  repoWeights := .ofList [("alpha",.ofList [("1f2e3d4c",1),("5a6b7c8d",2)])]
  reasons := .empty
  vector := ⟨.ofList [("_other",4500000),("alpha",5500000)],0⟩
  repos := .ofList [("alpha",.ofList [("1f2e3d4c",1833333),("5a6b7c8d",3666667)])]
  clamped := false

def webJob : Option Member × Operator :=
  (some ⟨"alpha","github:acme/web"⟩,⟨some ⟨some 2000000,some 20000000,none⟩,none,none⟩)

theorem delegation_narrows_two_projects :
    Narrowed oneHash webRef twoProjects alphaSplit webJob.1 webJob.2
      (governedDollars oneHash webRef twoProjects alphaSplit webJob.1 webJob.2) ∧
    ((envelopeEntries twoProjects).map fun id => entryCap twoProjects (if id = "alpha" then webJob else (none,webJob.2)).1
      (governedDollars oneHash webRef twoProjects alphaSplit (if id = "alpha" then webJob else (none,webJob.2)).1
        (if id = "alpha" then webJob else (none,webJob.2)).2)).sum ≤ 10000000 := by
  have formed : twoProjects.WellFormed :=
    ⟨by decide,by decide,by decide,by decide,by decide,fun _ => ⟨10,rfl,by decide⟩,fun _ => ⟨24,rfl,by decide⟩,
      fun _ => ⟨14,rfl,by decide⟩⟩
  have split : ValidSplit twoProjects alphaSplit :=
    ⟨⟨by decide,by decide,by decide,by decide⟩,repoWeightsOf alphaSplit.repoWeights,by decide +kernel⟩
  obtain ⟨each,sum⟩ := delegation_narrows oneHash webRef formed split
  exact ⟨each _ _,sum (fun id => if id = "alpha" then webJob else (none,webJob.2)) (by decide)⟩

end Samples

end PiDispatch.GovernedDollars
