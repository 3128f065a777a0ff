import PiDispatch.ChildFoldRuns
import PiDispatch.ChildLedgerRuns

/-! A parent that folds the files of an honest child while the child replaces them: which of its ledgers the parent reads
back, and what it takes the child for. -/
namespace PiDispatch.UsageMeter
open Kernel Relation

/-- What a read of a child's file finds: nothing, what it found before, or one of the files that the child wrote, none
older than the last one read. -/
inductive Finds (files : List (List UInt8)) (seen : Nat) : FileRead → Nat → Prop
  | gone : Finds files seen .gone seen
  | unchanged : Finds files seen .unchanged seen
  | file (index : Nat) (bytes : List UInt8) (written : files[index]? = some bytes) (later : seen ≤ index) :
      Finds files seen (.bytes bytes) index

theorem Finds.later {files : List (List UInt8)} {seen index : Nat} {read : FileRead} (finds : Finds files seen read index) :
    seen ≤ index := by
  cases finds with
  | gone => exact le_refl _
  | unchanged => exact le_refl _
  | file index bytes written later => exact later

/-- Folds of a parent under which those files come, one replaced by the next, whatever else its directory holds. -/
inductive Watched (figures : Figures) (files : List (List UInt8)) (name : String) : Nat → Fold → Prop
  | start (fold : Fold) (fresh : fold.files.get? name = none) : Watched figures files name 0 fold
  | next {seen index : Nat} {fold : Fold} (watched : Watched figures files name seen fold) (tick : Tick)
      (finds : Finds files seen (tick.read name) index) :
      Watched figures files name index (foldChildLedgers figures tick fold)

variable {figures : Figures}

/-- The ledgers of a child in the order written, each read back as it is. -/
structure Faithful (figures : Figures) (ledgers : List Ledger) : Prop where
  read : ∀ ledger ∈ ledgers, readLedger (.bytes (Octets.utf8 (ledger.text figures))) = .text (ledger.text figures) ∧
    parseChildLedger figures (ledger.text figures) = some ledger
  ordered : ledgers.Pairwise fun earlier later => earlier.metered = true → later.metered = true → Reached earlier later

/-- The file of a ledger. -/
def Ledger.file (figures : Figures) (ledger : Ledger) : List UInt8 := Octets.utf8 (ledger.text figures)

/-- An entry whose file is taken for what it is: its mark is a ledger that was written, no later than `seen`. -/
structure Taken (ledgers : List Ledger) (seen : Nat) (entry : Entry) : Prop where
  why : entry.why ≠ some .malformed ∧ entry.why ≠ some .shrank
  mark : entry.unmetered = false → ∃ index ≤ seen, ledgers[index]? = some entry.high ∧ entry.high.metered = true

private theorem Taken.later {ledgers : List Ledger} {seen index : Nat} {entry : Entry} (taken : Taken ledgers seen entry)
    (later : seen ≤ index) : Taken ledgers index entry := by
  refine ⟨taken.why,fun alive => ?_⟩
  obtain ⟨own,before,held,metered⟩ := taken.mark alive
  exact ⟨own,le_trans before later,held,metered⟩

private theorem judged_taken {ledgers : List Ledger} (faithful : Faithful figures ledgers) {index : Nat} {ledger : Ledger}
    (written : ledgers[index]? = some ledger) {before : Option Entry}
    (taken : ∀ entry, before = some entry → Taken ledgers index entry)
    (live : ∀ entry, before = some entry → entry.unmetered = false) (pid : Nat) :
    Taken ledgers index (judgeLedger before pid (some ledger)) := by
  have fair := parsed_fair (faithful.read ledger (List.mem_of_getElem? written)).2
  unfold judgeLedger
  dsimp only
  split
  · exact ⟨⟨nofun,nofun⟩,fun none => nomatch none⟩
  next metered =>
    rw [Bool.not_eq_false] at metered
    split
    next shrunken =>
      obtain ⟨entry,held⟩ := Option.isSome_iff_exists.mp shrunken.1
      obtain ⟨own,early,mark,alive⟩ := (taken entry held).mark (live entry held)
      have up : Reached entry.high ledger := by
        rcases Nat.lt_or_eq_of_le early with earlier | same
        · obtain ⟨inside,here⟩ := List.getElem?_eq_some_iff.mp mark
          obtain ⟨inside',there⟩ := List.getElem?_eq_some_iff.mp written
          have reached := List.pairwise_iff_getElem.mp faithful.ordered own index inside inside' earlier
          rw [here,there] at reached
          exact reached alive metered
        · subst same
          rw [mark] at written
          cases written
          exact fair.reached
      have short := shrunken.2
      rw [held,Option.map_some,Option.getD_some,reached_iff.mpr up] at short
      cases short
    · exact ⟨⟨nofun,nofun⟩,fun _ => ⟨index,le_refl _,written,metered⟩⟩

private theorem reads_taken {ledgers : List Ledger} (faithful : Faithful figures ledgers) {tick : Tick} {name : String}
    {seen index : Nat} (finds : Finds (ledgers.map (Ledger.file figures)) seen (tick.read name) index)
    {before after : Option Entry} (reads : ReflTransGen (Judged figures tick name) before after)
    (taken : ∀ entry, before = some entry → Taken ledgers index entry) :
    ∀ entry, after = some entry → Taken ledgers index entry := by
  induction reads with
  | refl => exact taken
  | @tail middle last _ judged ih =>
    obtain ⟨pid,ledger,_,live,read⟩ := judged
    intro entry same
    cases same
    generalize tick.read name = found at finds read
    cases finds with
    | gone => rcases read with ⟨bad,_⟩ | ⟨_,text,_⟩ <;> contradiction
    | unchanged => rcases read with ⟨bad,_⟩ | ⟨_,text,_⟩ <;> contradiction
    | file index bytes written later =>
      rw [List.getElem?_map] at written
      obtain ⟨own,held,rfl⟩ := Option.map_eq_some_iff.mp written
      obtain ⟨text,parsed⟩ := faithful.read own (List.mem_of_getElem? held)
      unfold Ledger.file at read
      rw [text] at read
      rcases read with ⟨bad,_⟩ | ⟨_,same,rfl⟩
      · cases bad
      · cases same
        rw [parsed]
        exact judged_taken faithful held ih live pid

private theorem vanish_taken {ledgers : List Ledger} {seen : Nat} {entry : Entry} (taken : Taken ledgers seen entry)
    (present : List String) (name : String) : Taken ledgers seen (vanish present name entry) := by
  unfold vanish
  split
  · exact ⟨⟨nofun,nofun⟩,fun none => nomatch none⟩
  · exact taken

/-- Whatever a parent reads of the files, and whenever: it never takes the child for one whose ledger is malformed or has
shrunk. -/
theorem watched_taken {ledgers : List Ledger} (faithful : Faithful figures ledgers) {name : String} {seen : Nat} {fold : Fold}
    (watched : Watched figures (ledgers.map (Ledger.file figures)) name seen fold) :
    ∀ entry, fold.files.get? name = some entry → Taken ledgers seen entry := by
  induction watched with
  | start fold fresh =>
    intro entry held
    rw [fresh] at held
    cases held
  | @next seen index fold watched tick finds ih =>
    intro entry held
    obtain ⟨files,each,kept,_,_⟩ := fold_shape figures tick fold
    obtain ⟨read,present,reads,_,shape⟩ := each name
    rw [kept,Dict.get?_filter,shape] at held
    obtain ⟨held,_⟩ := Option.filter_eq_some_iff.mp held
    obtain ⟨old,here,rfl⟩ := Option.map_eq_some_iff.mp held
    refine vanish_taken (reads_taken faithful finds reads ?_ old here) present name
    intro before own
    exact (ih before own).later finds.later

/-! An honest child. -/

namespace Child
variable {Context Options : Type}

/-- A child whose metered files are small, are read back as they are, and reach the earlier ones; its parent takes it for
what it is. -/
structure Accepted (figures : Figures) (child : Child Context Options) : Prop where
  small : ∀ written ∈ child.files, written.ledger.metered = true →
    (written.ledger.file figures).length ≤ CHILD_LEDGER_MAX_BYTES
  parsed : ∀ written ∈ child.files, written.ledger.metered = true →
    parseChildLedger figures (written.ledger.text figures) = some written.ledger
  ordered : child.files.Pairwise fun later earlier => later.ledger.metered = true → earlier.ledger.metered = true →
    reached earlier.ledger later.ledger = true
  watched : ∀ name seen fold, Watched figures (child.files.reverse.map fun written => written.ledger.file figures) name seen fold →
    ∀ entry, fold.files.get? name = some entry → entry.why ≠ some .malformed ∧ entry.why ≠ some .shrank

private theorem silent_read (figures : Figures) (state : LedgerState) :
    let ledger := childLedger state false .initial ⟨none,none⟩
    ledger.Carried figures ∧ ledger.spentMicros ≤ maxSafeInteger := by
  have zero : UsageMeter.Carried figures 0 := by
    have exact' := figures.exact_nat 0 (Nat.zero_le _)
    rw [Nat.cast_zero] at exact'
    exact ⟨exact',Nat.cast_nonneg _⟩
  refine ⟨?_,Int.natCast_nonneg maxSafeInteger⟩
  intro sum inside
  have none : sum = 0 := by simpa [Ledger.sums,childLedger] using inside
  rw [none]
  exact zero

variable {cap : Option (CostPolicy Context Options)} (safe : ∀ limit, cap = some limit → limit.capMicros ≤ maxSafeInteger)
include safe

private theorem files_faithful {list lazy ok : Bool} {past : List (Act Context Options × Reply)} {child : Child Context Options}
    (run : Runs (step cap) (fun _ _ => True) (start cap list lazy ok) past child)
    (carried : ∀ written ∈ child.files, written.ledger.metered = true → written.ledger.Carried figures)
    (spent : ∀ written ∈ child.files, written.ledger.metered = true → written.ledger.spentMicros ≤ maxSafeInteger) :
    (∀ written ∈ child.files, (written.ledger.file figures).length ≤ CHILD_LEDGER_MAX_BYTES) ∧
      Faithful figures (child.files.reverse.map Written.ledger) := by
  have filed := runs_filed cap safe run
  have whole : ∀ written ∈ child.files, written.ledger.Carried figures ∧ written.ledger.spentMicros ≤ maxSafeInteger := by
    intro written inside
    cases metered : written.ledger.metered with
    | true => exact ⟨carried written inside metered,spent written inside metered⟩
    | false =>
      obtain ⟨state,shape⟩ := filed.silent written inside metered
      rw [shape]
      exact silent_read figures state
  refine ⟨?_,?_,?_⟩
  · intro written inside
    obtain ⟨own,least⟩ := whole written inside
    exact ledger_bytes (filed.proper written inside) own least
  · intro ledger inside
    obtain ⟨written,member,rfl⟩ := List.mem_map.mp inside
    rw [List.mem_reverse] at member
    obtain ⟨own,least⟩ := whole written member
    have proper := filed.proper written member
    exact ⟨ledger_read proper own least,ledger_parsed proper own least⟩
  · rw [List.pairwise_map,List.pairwise_reverse]
    exact filed.ordered.imp fun {later earlier} reached alive alive' => reached alive' alive

/-- In every run of a child whose sums stay safe integers or exact amounts below those: its metered files are small, read
back as they are, and never look shrunken, if and only if the cost guard had spent a safe integer of micro-dollars at each
of them. -/
theorem accepted_iff {list lazy ok : Bool} {past : List (Act Context Options × Reply)} {child : Child Context Options}
    (run : Runs (step cap) (fun _ _ => True) (start cap list lazy ok) past child)
    (carried : ∀ written ∈ child.files, written.ledger.metered = true → written.ledger.Carried figures) :
    child.Accepted figures ↔
      ∀ written ∈ child.files, written.ledger.metered = true → written.ledger.spentMicros ≤ maxSafeInteger := by
  constructor
  · intro accepted written inside metered
    exact (parsed_fair (accepted.parsed written inside metered)).spent.2
  · intro spent
    obtain ⟨small,faithful⟩ := files_faithful safe run carried spent
    have filed := runs_filed cap safe run
    refine ⟨fun written inside _ => small written inside,?_,?_,?_⟩
    · intro written inside _
      exact (faithful.read _ (List.mem_map.mpr ⟨written,List.mem_reverse.mpr inside,rfl⟩)).2
    · exact filed.ordered.imp fun reached alive alive' => reached_iff.mpr (reached alive alive')
    · intro name seen fold watched entry held
      have same : (child.files.reverse.map fun written => written.ledger.file figures) =
          (child.files.reverse.map Written.ledger).map (Ledger.file figures) := by
        rw [List.map_map]
        rfl
      rw [same] at watched
      exact (watched_taken faithful watched entry held).why

end Child

/-! One call, priced at two dollars, and at more than a safe integer counts in micro-dollars. -/

def freeCap : CostPolicy Unit Unit := ⟨10,fun _ => some 0,fun _ => false⟩

def freeCall : Call Unit Unit :=
  ⟨⟨.streamSimple,⟨"groq","small","openai-completions",none,.null,.null,false⟩,(),(),none⟩,none,none,true,none,none,false⟩

def answer (price : Rat) : Message :=
  ⟨some ⟨some 0,some 0,some 0,some 0,none,none,some 0,some ⟨some 0,some 0,some 0,some 0,some price,false⟩⟩,"stop",some [],
    none⟩

def oneCall (price : Rat) : List (Child.Act Unit Unit) :=
  [.call freeCall true true,.returns (.stream 0) true,.charged 0 .stream (.fulfilled false (some (answer price))),
    .settles 0 (.message (some (answer price)) false) true]

def called (price : Rat) : Child Unit Unit :=
  after (Child.step (some freeCap)) (Child.start (some freeCap) false false true) (oneCall price)

/-- Whether all that a child has written sums to safe integers. -/
def safeSums (child : Child Unit Unit) : Bool :=
  child.files.all fun written => written.ledger.sums.all fun sum =>
    decide (sum.den = 1) && decide (0 ≤ sum.num) && decide (sum.num ≤ maxSafeInteger)

private theorem safeSums_carried {child : Child Unit Unit} (safe : safeSums child = true) :
    ∀ written ∈ child.files, written.ledger.metered = true → written.ledger.Carried naturals := by
  intro written inside _ sum member
  have own := List.all_eq_true.mp (List.all_eq_true.mp safe written inside) sum member
  simp only [Bool.and_eq_true,decide_eq_true_eq] at own
  obtain ⟨⟨whole,positive⟩,within⟩ := own
  obtain ⟨number,same⟩ := Int.eq_ofNat_of_zero_le positive
  have value : sum = (number : Nat) := by
    rw [← Rat.num_div_den sum,whole,same]
    simp
  rw [same] at within
  have least : number ≤ maxSafeInteger := by exact_mod_cast within
  rw [value]
  exact ⟨⟨number,least,rfl⟩,by exact_mod_cast least⟩

private theorem freeCap_safe (limit : CostPolicy Unit Unit) (under : some freeCap = some limit) :
    limit.capMicros ≤ maxSafeInteger := by
  cases under
  decide

theorem accepted_two : (called 2).Accepted naturals := by
  refine (Child.accepted_iff freeCap_safe (runs_after _ _ (oneCall 2)) (safeSums_carried (by decide +kernel))).mpr ?_
  have spent : ((called 2).files.all fun written => decide (written.ledger.spentMicros ≤ maxSafeInteger)) = true := by
    decide +kernel
  exact fun written inside _ => of_decide_eq_true (List.all_eq_true.mp spent written inside)

/-- The dollars are a safe integer, the micro-dollars are not, and the ledger is refused. -/
theorem dear_refused : ¬∀ (past : List (Child.Act Unit Unit × Child.Reply)) (child : Child Unit Unit),
    Runs (Child.step (some freeCap)) (fun _ _ => True) (Child.start (some freeCap) false false true) past child →
      (∀ written ∈ child.files, written.ledger.metered = true → written.ledger.Carried naturals) →
        child.Accepted naturals := by
  intro accepted
  have own := accepted _ _ (runs_after _ _ (oneCall 10000000000)) (safeSums_carried (by decide +kernel))
  have beyond : ((called 10000000000).files.any fun written => written.ledger.metered &&
      decide (maxSafeInteger < written.ledger.spentMicros)) = true := by decide +kernel
  obtain ⟨written,inside,more⟩ := List.any_eq_true.mp beyond
  simp only [Bool.and_eq_true,decide_eq_true_eq] at more
  have within := (parsed_fair (own.parsed written inside more.1)).spent.2
  omega

end PiDispatch.UsageMeter
