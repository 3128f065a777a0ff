import PiDispatch.RunBudgetLedger
import PiDispatch.ScopedLimits

/-! Which of the holds that `reserveDollars` returns the run ledger can record: exactly those with at most
sixteen window keys. Every other check of `validHold` passes on a hold the worker itself reserved. -/
namespace PiDispatch.RunBudgetLedger
open Kernel DollarBudget ScopedLimits

/-- How many windows a job's ledgers have: one for each cap that is set. -/
def windowCount (ledgers : List Ledger) : Nat :=
  (ledgers.map fun ledger => (Budget.windowNames.filter fun name => (ledger.caps.cap name).isSome).length).sum

theorem activeWindows_length (ledgers : List Ledger) (now : Instant) :
    (activeWindows ledgers now).length = windowCount ledgers := by
  have one : ∀ ledger : Ledger, (ledgerWindows now ledger).length =
      (Budget.windowNames.filter fun name => (ledger.caps.cap name).isSome).length := by
    intro ledger
    simp only [ledgerWindows,List.length_filterMap_eq_countP,← List.countP_eq_length_filter]
    simp
  simp only [activeWindows,List.length_flatMap,windowCount,one]

theorem utf16Length_bounds (text : String) :
    text.toList.length ≤ utf16Length text ∧ utf16Length text ≤ 2 * text.toList.length := by
  unfold utf16Length
  induction text.toList with
  | nil => simp
  | cons letter letters ih =>
    simp only [List.map_cons,List.sum_cons,List.length_cons]
    split <;> omega

section Shapes
variable {hash16 : String → String} (hashes : ∀ text, (hash16 text).toList.length = 16) (now : Instant)
include hashes

private theorem worker_key_valid {keyPrefix : String} (shaped : WorkerPrefix hash16 keyPrefix) (name : WindowName) :
    isDollarKey (Budget.windowKey now keyPrefix name) := by
  have length : (Budget.windowKey now keyPrefix name).toList.length = keyPrefix.toList.length + suffixLength name := by
    rw [windowKey_toList,List.length_append,windowSuffix_length]
  have bounds := prefix_length hashes shaped
  have suffix : 10 ≤ suffixLength name ∧ suffixLength name ≤ 13 := by cases name <;> decide
  have units := utf16Length_bounds (Budget.windowKey now keyPrefix name)
  have own : utf16Length DOLLAR_KEY_PREFIX = 10 := by decide
  refine ⟨by omega,by omega,?_⟩
  rcases prefix_under_dollar shaped with rfl | under
  · obtain ⟨rest,shape⟩ := Budget.windowKey_prefix now DOLLAR_KEY_PREFIX name
    exact ⟨rest.toList,by rw [shape]; simp⟩
  · rw [startsWith,windowKey_toList]
    exact under.trans (List.prefix_append _ _)

private theorem worker_prefix_valid {keyPrefix : String} (shaped : WorkerPrefix hash16 keyPrefix) :
    isDollarPrefix keyPrefix := by
  have bounds := prefix_length hashes shaped
  have units := utf16Length_bounds keyPrefix
  exact ⟨by omega,prefix_under_dollar shaped⟩

private theorem worker_keys_distinct (ledgers : List Ledger)
    (shaped : ∀ ledger ∈ ledgers, WorkerPrefix hash16 ledger.keyPrefix)
    (distinct : (ledgers.map Ledger.keyPrefix).Nodup) :
    ((activeWindows ledgers now).map LedgerWindow.key).Nodup := by
  rw [activeWindows,List.map_flatMap,List.nodup_flatMap]
  constructor
  · intro ledger member
    have keys : (ledgerWindows now ledger).map LedgerWindow.key =
        (Budget.windowNames.filter fun name => (ledger.caps.cap name).isSome).map
          (Budget.windowKey now ledger.keyPrefix) := by
      simp only [ledgerWindows,List.map_filterMap,Option.map_map,Function.comp_def]
      rw [← List.filterMap_eq_map,List.filterMap_filter]
      refine List.filterMap_congr fun name _ => ?_
      cases ledger.caps.cap name <;> simp
    rw [keys]
    refine List.Nodup.map_on (fun first _ second _ same => ?_) (List.Nodup.filter _ (by decide))
    exact (windowKey_injective hashes now (shaped ledger member) (shaped ledger member) same).2
  · refine List.Pairwise.imp_of_mem (fun {left right} leftMember rightMember apart => ?_)
      (List.pairwise_map.mp distinct)
    intro key inLeft inRight
    obtain ⟨first,firstMember,rfl⟩ := List.mem_map.mp inLeft
    obtain ⟨second,secondMember,same⟩ := List.mem_map.mp inRight
    rw [(ledgerWindows_ledger now left first firstMember).2.1,
      (ledgerWindows_ledger now right second secondMember).2.1] at same
    exact apart (windowKey_injective hashes now (shaped right rightMember) (shaped left leftMember) same).1.symm

/-- Of a hold the worker reserved, only the number of keys can be refused. -/
private theorem validHold_holdOf (ledgers : List Ledger)
    (shaped : ∀ ledger ∈ ledgers, WorkerPrefix hash16 ledger.keyPrefix)
    (distinct : (ledgers.map Ledger.keyPrefix).Nodup) (amountMicros : Int) (micros : isMicros amountMicros) :
    validHold (holdOf amountMicros (activeWindows ledgers now)) =
      if windowCount ledgers ≤ RUN_BUDGET_MAX_KEYS then some (holdOf amountMicros (activeWindows ledgers now)) else none := by
  have count : ((activeWindows ledgers now).map LedgerWindow.key).length = windowCount ledgers := by
    rw [List.length_map,activeWindows_length]
  have window : ∀ window ∈ activeWindows ledgers now, WorkerPrefix hash16 window.ledger ∧
      window.key = Budget.windowKey now window.ledger window.window := by
    intro window member
    obtain ⟨ledger,there,inside⟩ := List.mem_flatMap.mp member
    obtain ⟨own,key,_⟩ := ledgerWindows_ledger now ledger window inside
    rw [own]
    exact ⟨shaped ledger there,key⟩
  have keys : ∀ key ∈ (activeWindows ledgers now).map LedgerWindow.key, isDollarKey key := by
    intro key member
    obtain ⟨found,there,rfl⟩ := List.mem_map.mp member
    rw [(window found there).2]
    exact worker_key_valid hashes now (window found there).1 found.window
  have groups : ∀ group ∈ holdLedgers (activeWindows ledgers now),
      isDollarPrefix group.keyPrefix ∧ group.keys ≠ [] := by
    intro group member
    obtain ⟨nonempty,own⟩ := holdLedgers_group _ group member
    obtain ⟨key,inside⟩ := List.exists_mem_of_ne_nil _ nonempty
    obtain ⟨found,there,ledger,_⟩ := own key inside
    rw [← ledger]
    exact ⟨worker_prefix_valid hashes (window found there).1,nonempty⟩
  have under : ∀ group ∈ holdLedgers (activeWindows ledgers now), ∀ key ∈ group.keys,
      startsWith key (group.keyPrefix ++ ":") := by
    intro group member key inside
    obtain ⟨found,there,ledger,rfl⟩ := (holdLedgers_group _ group member).2 key inside
    obtain ⟨suffix,shape⟩ := Budget.windowKey_prefix now found.ledger found.window
    refine ⟨suffix.toList,?_⟩
    rw [(window found there).2,shape,ledger]
    simp
  have fewer : (holdLedgers (activeWindows ledgers now)).length ≤ windowCount ledgers := by
    rw [← count,← holdLedgers_flatten,List.length_flatMap]
    have ones := List.length_le_sum_of_one_le
      ((holdLedgers (activeWindows ledgers now)).map fun group => group.keys.length) (by
        intro size member
        obtain ⟨group,there,rfl⟩ := List.mem_map.mp member
        exact List.length_pos_iff.mpr (groups group there).2)
    rwa [List.length_map] at ones
  unfold validHold holdOf
  simp only [micros,not_true_eq_false,if_false,count]
  by_cases few : windowCount ledgers ≤ RUN_BUDGET_MAX_KEYS
  · rw [if_neg (by push Not; exact ⟨few,keys⟩),
      if_neg (not_not.mpr (worker_keys_distinct hashes now ledgers shaped distinct)),
      if_neg (not_lt.mpr (fewer.trans few)),if_neg (not_not.mpr groups),
      if_neg (not_not.mpr (holdLedgers_flatten _)),if_neg (not_not.mpr under),if_pos few]
  · rw [if_pos (Or.inl (not_le.mp few)),if_neg few]

end Shapes

/-- A hold that `reserveDollars` admitted over a job's ledgers is recordable, unchanged, exactly when the job has
at most sixteen windows (or reserves nothing), and `recordHold` answers bad-hold for every other one. -/
theorem hold_recordable_iff (hash16 : String → String) (hashes : ∀ text, (hash16 text).toList.length = 16)
    (caps : Option Caps) (scope project other : Option Ledger) (models : List Ledger)
    (rows : ∀ ledger ∈ scope.toList ++ project.toList ++ other.toList,
      ∃ row, ledger.keyPrefix = scopeDollarKeyPrefix hash16 row)
    (modelRows : ∀ ledger ∈ models, ∃ ref, ledger.keyPrefix = modelDollarKeyPrefix hash16 ref)
    (distinct : ((dollarLedgers caps scope project other models).map Ledger.keyPrefix).Nodup)
    (amountMicros : Int) (now : Instant) (hold : Hold)
    (admitted : Program.Returns (reserveDollars (dollarLedgers caps scope project other models) amountMicros now)
      (.ok (.admitted hold))) :
    (validHold hold = some hold ↔
      amountMicros = 0 ∨ windowCount (dollarLedgers caps scope project other models) ≤ RUN_BUDGET_MAX_KEYS) ∧
      ∀ runId seq stamp, isSeq seq → (recordHold runId seq hold stamp = .done (.error "bad-hold") ↔
        ¬(amountMicros = 0 ∨ windowCount (dollarLedgers caps scope project other models) ≤ RUN_BUDGET_MAX_KEYS)) := by
  have shaped : ∀ ledger ∈ dollarLedgers caps scope project other models, WorkerPrefix hash16 ledger.keyPrefix := by
    intro ledger member
    simp only [dollarLedgers,List.append_assoc,List.mem_append] at member rows
    rcases member with own | row | row | row | model
    · cases caps with
      | none => cases own
      | some caps =>
        rw [List.mem_singleton.mp own]
        exact .deployment
    · obtain ⟨row,shape⟩ := rows ledger (.inl row)
      rw [shape]
      exact .scope row
    · obtain ⟨row,shape⟩ := rows ledger (.inr (.inl row))
      rw [shape]
      exact .scope row
    · obtain ⟨row,shape⟩ := rows ledger (.inr (.inr row))
      rw [shape]
      exact .scope row
    · obtain ⟨ref,shape⟩ := modelRows ledger model
      rw [shape]
      exact .model ref
  have valid : validHold hold =
      if amountMicros = 0 ∨ windowCount (dollarLedgers caps scope project other models) ≤ RUN_BUDGET_MAX_KEYS
      then some hold else none := by
    obtain ⟨micros,rfl⟩ := admitted_hold _ _ _ _ admitted
    by_cases zero : amountMicros = 0
    · simp only [zero,if_true,true_or]
      decide
    · simp only [zero,if_false,false_or]
      exact validHold_holdOf hashes now _ shaped distinct amountMicros micros
  constructor
  · rw [valid]
    split <;> simp_all
  · intro runId seq stamp sequence
    unfold recordHold
    rw [if_neg (not_not.mpr sequence),valid]
    by_cases few : amountMicros = 0 ∨ windowCount (dollarLedgers caps scope project other models) ≤ RUN_BUDGET_MAX_KEYS
    · rw [if_pos few]
      exact iff_of_false (fun same => by simp [attempt,call] at same) (not_not.mpr few)
    · rw [if_neg few]
      exact iff_of_true rfl few

/-- The hash of the refs and scopes below. -/
def sampleHash16 : String → String
  | "vendor/a" => "07377dc8918076e2"
  | "vendor/b" => "6105676fcdb6652e"
  | "vendor/c" => "fd0bce9d253f26a5"
  | "vendor/d" => "b80422629027a3ab"
  | "vendor/e" => "0b7da479262cd6a2"
  | "vendor/f" => "cf6ca3c0e9c63846"
  | _ => "17cd051e65a26d9f"

private theorem sampleHash16_length (text : String) : (sampleHash16 text).toList.length = 16 := by
  unfold sampleHash16
  split <;> decide

/-- A row for each of six models, with a day, a week and a month of ten dollars. -/
def sixModels : List Ledger :=
  ["vendor/a","vendor/b","vendor/c","vendor/d","vendor/e","vendor/f"].map fun ref =>
    ⟨modelDollarKeyPrefix sampleHash16 ref,⟨some 10000000,some 10000000,some 10000000⟩⟩

private theorem sixModels_shaped : ∀ ledger ∈ sixModels, WorkerPrefix sampleHash16 ledger.keyPrefix := by
  intro ledger member
  obtain ⟨ref,_,rfl⟩ := List.mem_map.mp member
  exact .model ref

private theorem sample_fits (ledgers : List Ledger)
    (caps : ∀ ledger ∈ ledgers, ledger.caps = ⟨some 10000000,some 10000000,some 10000000⟩) :
    ∀ window ∈ activeWindows ledgers 0, (2000000 : Int) ≤ window.cap := by
  intro window member
  obtain ⟨ledger,there,inside⟩ := List.mem_flatMap.mp member
  have cap := (ledgerWindows_ledger 0 ledger window inside).2.2
  rw [caps ledger there] at cap
  cases name : window.window <;> simp [name,Caps.cap] at cap <;> omega

private theorem sampleModels_shaped (models : List Ledger) (sample : models ⊆ sixModels) :
    ∀ ledger ∈ models, ∃ ref, ledger.keyPrefix = modelDollarKeyPrefix sampleHash16 ref := by
  intro ledger member
  obtain ⟨ref,_,rfl⟩ := List.mem_map.mp (sample member)
  exact ⟨ref,rfl⟩

/-- A project row and two model rows: nine windows. -/
def nineWindows : List Ledger :=
  dollarLedgers none none (some ⟨scopeDollarKeyPrefix sampleHash16 "project:web",⟨some 10000000,some 10000000,some 10000000⟩⟩)
    none (sixModels.take 2)

private theorem nineWindows_admitted :
    Program.Returns (reserveDollars nineWindows 2000000 0) (.ok (.admitted (holdOf 2000000 (activeWindows nineWindows 0)))) := by
  have shaped : ∀ ledger ∈ nineWindows, WorkerPrefix sampleHash16 ledger.keyPrefix := by
    intro ledger member
    rcases List.mem_append.mp member with row | model
    · rw [List.mem_singleton.mp row]
      exact .scope "project:web"
    · exact sixModels_shaped ledger (List.mem_of_mem_take model)
  have fresh := Program.returns_run execute (reserveDollars nineWindows 2000000 0) Store.empty
  rwa [reserve_fresh nineWindows 2000000 0 (by decide) (by decide)
    (worker_keys_distinct sampleHash16_length 0 nineWindows shaped (by decide +kernel)) (sample_fits nineWindows (by decide))] at fresh

theorem nine_windows_recordable :
    validHold (holdOf 2000000 (activeWindows nineWindows 0)) = some (holdOf 2000000 (activeWindows nineWindows 0)) :=
  (hold_recordable_iff sampleHash16 sampleHash16_length none none
    (some ⟨scopeDollarKeyPrefix sampleHash16 "project:web",⟨some 10000000,some 10000000,some 10000000⟩⟩) none (sixModels.take 2)
    (fun _ member => ⟨"project:web",(List.mem_singleton.mp member) ▸ rfl⟩)
    (sampleModels_shaped _ (List.take_subset 2 sixModels)) (by decide +kernel) 2000000 0 _ nineWindows_admitted).1.mpr
    (.inr (by decide))

/-- An unrestricted job under six capped models is admitted with eighteen keys and cannot be recorded. -/
theorem six_models_unrecordable :
    ∃ hold, ((reserveDollars (dollarLedgers none none none none sixModels) 2000000 0).run execute Store.empty).1 =
        .ok (.admitted hold) ∧
      hold.keys.length = 18 ∧ validHold hold = none ∧
      recordHold "run" 1 hold "0" = .done (.error "bad-hold") := by
  have distinct : (sixModels.map Ledger.keyPrefix).Nodup := by decide +kernel
  have refused := validHold_holdOf sampleHash16_length 0 sixModels sixModels_shaped distinct 2000000 (by decide)
  rw [if_neg (by decide)] at refused
  refine ⟨holdOf 2000000 (activeWindows sixModels 0),?_,?_,refused,?_⟩
  · refine reserve_fresh sixModels 2000000 0 (by decide) (by decide)
      (worker_keys_distinct sampleHash16_length 0 sixModels sixModels_shaped distinct) (sample_fits sixModels ?_)
    decide
  · simp [holdOf,activeWindows_length]
    decide
  · simp [recordHold,isSeq,refused]
    decide

end PiDispatch.RunBudgetLedger
