import PiDispatch.UsageMeter

/-! The rows of a meter partition its totals, whatever is observed and settled, and everything a meter counts only
grows, row by row, but for the calls that are unresolved. -/
namespace PiDispatch.UsageMeter
open Payload

attribute [ext] Row

/-! Rows as sums. -/

structure Row.Within (row now : Row) : Prop where
  calls : row.calls ≤ now.calls
  input : row.input ≤ now.input
  output : row.output ≤ now.output
  cacheRead : row.cacheRead ≤ now.cacheRead
  cacheWrite : row.cacheWrite ≤ now.cacheWrite
  cacheWrite1h : row.cacheWrite1h ≤ now.cacheWrite1h
  reasoning : row.reasoning ≤ now.reasoning
  total : row.total ≤ now.total
  cost : row.cost ≤ now.cost
  unpriced : row.unpriced ≤ now.unpriced
  providerBilled : row.providerBilled ≤ now.providerBilled

theorem Row.Within.rfl (row : Row) : row.Within row :=
  ⟨le_refl _,le_refl _,le_refl _,le_refl _,le_refl _,le_refl _,le_refl _,le_refl _,le_refl _,le_refl _,le_refl _⟩

theorem Row.Within.trans {first second third : Row} (one : first.Within second) (two : second.Within third) :
    first.Within third :=
  ⟨le_trans one.calls two.calls,le_trans one.input two.input,le_trans one.output two.output,
    le_trans one.cacheRead two.cacheRead,le_trans one.cacheWrite two.cacheWrite,
    le_trans one.cacheWrite1h two.cacheWrite1h,le_trans one.reasoning two.reasoning,le_trans one.total two.total,
    le_trans one.cost two.cost,le_trans one.unpriced two.unpriced,le_trans one.providerBilled two.providerBilled⟩

/-- A row of figures that are not negative. -/
def Row.Positive (row : Row) : Prop := emptyRow.Within row

theorem foldRow_comm (one other : Row) : foldRow one other = foldRow other one := by
  apply Row.ext
  · exact Nat.add_comm _ _
  all_goals first | exact Rat.add_comm _ _ | exact Nat.add_comm _ _

theorem foldRow_assoc (first second third : Row) :
    foldRow (foldRow first second) third = foldRow first (foldRow second third) := by
  apply Row.ext
  · exact Nat.add_assoc _ _ _
  all_goals first | exact Rat.add_assoc _ _ _ | exact Nat.add_assoc _ _ _

theorem foldRow_empty (row : Row) : foldRow row emptyRow = row := by
  apply Row.ext
  · exact Nat.add_zero _
  all_goals first | exact Rat.add_zero _ | exact Nat.add_zero _

theorem empty_foldRow (row : Row) : foldRow emptyRow row = row := by rw [foldRow_comm,foldRow_empty]

theorem foldRow_within {one other more much : Row} (first : one.Within more) (second : other.Within much) :
    (foldRow one other).Within (foldRow more much) :=
  ⟨Nat.add_le_add first.calls second.calls,add_le_add first.input second.input,add_le_add first.output second.output,
    add_le_add first.cacheRead second.cacheRead,add_le_add first.cacheWrite second.cacheWrite,
    add_le_add first.cacheWrite1h second.cacheWrite1h,add_le_add first.reasoning second.reasoning,
    add_le_add first.total second.total,add_le_add first.cost second.cost,Nat.add_le_add first.unpriced second.unpriced,
    Nat.add_le_add first.providerBilled second.providerBilled⟩

theorem foldRow_grows (held : Row) {row : Row} (positive : row.Positive) : held.Within (foldRow held row) := by
  have grown := foldRow_within (Row.Within.rfl held) positive
  rw [foldRow_empty] at grown
  exact grown

theorem Row.Positive.fold {one other : Row} (first : one.Positive) (second : other.Positive) :
    (foldRow one other).Positive := by
  have both := foldRow_within first second
  rw [foldRow_empty] at both
  exact both

/-- Rows, all folded into one. -/
def folded (into : Row) (rows : List Row) : Row := rows.foldl foldRow into

theorem folded_foldRow (into row : Row) (rows : List Row) : folded (foldRow into row) rows = foldRow (folded into rows) row := by
  induction rows generalizing into with
  | nil => rfl
  | cons first rows ih =>
    unfold folded at ih ⊢
    rw [List.foldl_cons,List.foldl_cons,foldRow_assoc,foldRow_comm row first,← foldRow_assoc,ih]

theorem folded_into (into : Row) (rows : List Row) : folded into rows = foldRow into (folded emptyRow rows) := by
  have same := folded_foldRow emptyRow into rows
  rw [empty_foldRow] at same
  rw [same,foldRow_comm]

theorem folded_append (into : Row) (first second : List Row) :
    folded into (first ++ second) = folded (folded into first) second := List.foldl_append

theorem folded_grows (into : Row) {rows : List Row} (positive : ∀ row ∈ rows, row.Positive) : into.Within (folded into rows) := by
  induction rows generalizing into with
  | nil => exact .rfl into
  | cons first rows ih =>
    have later := ih (foldRow into first) fun row inside => positive row (List.mem_cons_of_mem _ inside)
    exact (foldRow_grows into (positive first List.mem_cons_self)).trans later

/-! What a meter has recorded. -/

namespace Meter

def held (meter : Meter) : List Row := meter.byModel.map fun entry => entry.2.row

def recorded (meter : Meter) : Row := folded meter.other meter.held

def keyOf (provider model : String) : String := provider ++ "\x00" ++ model

structure Whole (meter : Meter) : Prop where
  calls : meter.calls = meter.unresolved + meter.recorded.calls
  input : meter.input = meter.recorded.input
  output : meter.output = meter.recorded.output
  total : meter.total = meter.recorded.total
  cost : meter.cost = meter.recorded.cost
  unpriced : meter.unpriced = meter.recorded.unpriced
  named : ∀ entry ∈ meter.byModel, entry.1 = keyOf entry.2.provider entry.2.model ∧ entry.2.row.Positive ∧ 0 < entry.2.row.calls
  distinct : (meter.byModel.map Prod.fst).Nodup
  other : meter.other.Positive
  idle : meter.other.calls = 0 → meter.other = emptyRow

/-- A model's entry, later: the same pair, with a row that grew. -/
def Later (entry now : String × NamedRow) : Prop :=
  now.1 = entry.1 ∧ now.2.provider = entry.2.provider ∧ now.2.model = entry.2.model ∧ entry.2.row.Within now.2.row

structure Grown (meter next : Meter) : Prop where
  calls : meter.calls ≤ next.calls
  input : meter.input ≤ next.input
  output : meter.output ≤ next.output
  total : meter.total ≤ next.total
  cost : meter.cost ≤ next.cost
  unpriced : meter.unpriced ≤ next.unpriced
  unreported : meter.unreported ≤ next.unreported
  sessions : meter.sessionIds.length ≤ next.sessionIds.length
  other : meter.other.Within next.other
  named : ∃ grown fresh, next.byModel = grown ++ fresh ∧ List.Forall₂ Later meter.byModel grown

private theorem finite_positive (value : Option Rat) : 0 ≤ finite value := by
  unfold finite
  split
  · split
    next positive => exact le_of_lt positive
    · exact le_refl _
  · exact le_refl _

private theorem price_positive (usage : Option Usage) : 0 ≤ (price usage).getD 0 := by
  unfold price
  cases Usage.price usage with
  | none => exact le_refl _
  | some given => exact le_max_left _ _

theorem rowOf_positive (usage : Option Usage) : (rowOf usage).Positive :=
  ⟨Nat.zero_le _,finite_positive _,finite_positive _,finite_positive _,finite_positive _,finite_positive _,finite_positive _,
    finite_positive _,price_positive usage,Nat.zero_le _,Nat.zero_le _⟩

private theorem later_rfl (entries : List (String × NamedRow)) : List.Forall₂ Later entries entries := by
  induction entries with
  | nil => exact .nil
  | cons entry entries ih => exact .cons ⟨rfl,rfl,rfl,.rfl _⟩ ih

theorem Grown.rfl (meter : Meter) : Grown meter meter :=
  ⟨le_refl _,le_refl _,le_refl _,le_refl _,le_refl _,le_refl _,le_refl _,le_refl _,.rfl _,meter.byModel,[],
    (List.append_nil _).symm,later_rfl _⟩

private theorem replaced_map {rows : List (String × NamedRow)} {key : String} (row : Row) (absent : key ∉ rows.map Prod.fst) :
    (rows.map fun held => if held.1 = key then (key,{ held.2 with row := foldRow held.2.row row }) else held) = rows := by
  induction rows with
  | nil => rfl
  | cons first rows ih =>
    rw [List.map_cons,List.mem_cons,not_or] at absent
    rw [List.map_cons,ih absent.2,if_neg (Ne.symm absent.1)]

private theorem any_iff (rows : List (String × NamedRow)) (key : String) :
    (rows.any fun held => held.1 = key) = true ↔ key ∈ rows.map Prod.fst := by
  simp [List.any_eq_true]

theorem landed_folded {rows : List (String × NamedRow)} (provider model : String) (row into : Row)
    (distinct : (rows.map Prod.fst).Nodup) :
    folded into ((landed rows provider model row).map fun entry => entry.2.row) =
      foldRow (folded into (rows.map fun entry => entry.2.row)) row := by
  unfold landed
  dsimp only
  split
  next found =>
    rw [any_iff] at found
    induction rows generalizing into with
    | nil => cases found
    | cons first rows ih =>
      rw [List.map_cons,List.nodup_cons] at distinct
      by_cases same : first.1 = provider ++ "\x00" ++ model
      · rw [List.map_cons,if_pos same,replaced_map row (same ▸ distinct.1),List.map_cons,List.map_cons]
        change folded (foldRow into (foldRow first.2.row row)) _ = foldRow (folded (foldRow into first.2.row) _) row
        rw [← foldRow_assoc,folded_foldRow]
      · have later : provider ++ "\x00" ++ model ∈ rows.map Prod.fst := by
          rcases List.mem_cons.mp found with own | later
          · exact absurd own.symm same
          · exact later
        rw [List.map_cons,if_neg same,List.map_cons,List.map_cons]
        exact ih (foldRow into first.2.row) distinct.2 later
  next =>
    rw [List.map_append,folded_append,empty_foldRow]
    rfl

theorem landed_keys (rows : List (String × NamedRow)) (provider model : String) (row : Row) :
    (landed rows provider model row).map Prod.fst =
      if (rows.any fun held => held.1 = keyOf provider model) = true then rows.map Prod.fst
      else rows.map Prod.fst ++ [keyOf provider model] := by
  unfold landed keyOf
  dsimp only
  split
  · rw [List.map_map]
    refine List.map_congr_left fun held _ => ?_
    dsimp only [Function.comp_apply]
    split
    next same => exact same.symm
    · rfl
  · rw [List.map_append]
    rfl

private theorem landed_named {rows : List (String × NamedRow)} {provider model : String} {row : Row}
    (named : ∀ entry ∈ rows, entry.1 = keyOf entry.2.provider entry.2.model ∧ entry.2.row.Positive ∧ 0 < entry.2.row.calls)
    (positive : row.Positive) (counted : 0 < row.calls) : ∀ entry ∈ landed rows provider model row,
      entry.1 = keyOf entry.2.provider entry.2.model ∧ entry.2.row.Positive ∧ 0 < entry.2.row.calls := by
  intro entry inside
  unfold landed at inside
  dsimp only at inside
  split at inside
  · obtain ⟨held,member,rfl⟩ := List.mem_map.mp inside
    obtain ⟨key,own,some'⟩ := named held member
    split
    next same =>
      refine ⟨same ▸ key,own.fold positive,?_⟩
      exact Nat.lt_of_lt_of_le some' (Nat.le_add_right _ _)
    · exact ⟨key,own,some'⟩
  · rcases List.mem_append.mp inside with held | fresh
    · exact named entry held
    · rw [List.mem_singleton.mp fresh]
      refine ⟨rfl,?_,?_⟩
      · dsimp only
        rw [empty_foldRow]
        exact positive
      · dsimp only
        rw [empty_foldRow]
        exact counted

private theorem landed_later {rows : List (String × NamedRow)} {provider model : String} {row : Row}
    (positive : row.Positive) : ∃ grown fresh, landed rows provider model row = grown ++ fresh ∧
      List.Forall₂ Later rows grown := by
  unfold landed
  dsimp only
  split
  · refine ⟨_,[],(List.append_nil _).symm,?_⟩
    rw [List.forall₂_map_right_iff,List.forall₂_same]
    intro held _
    split
    next same => exact ⟨same.symm,rfl,rfl,foldRow_grows _ positive⟩
    · exact ⟨rfl,rfl,rfl,.rfl _⟩
  · exact ⟨rows,_,rfl,later_rfl rows⟩

private theorem record_byModel (root : Option String) (meter : Meter) (usage : Option Usage) (ctx : CallContext) :
    (∃ provider model, (record root meter usage ctx).byModel = landed meter.byModel provider model (rowOf usage) ∧
      (record root meter usage ctx).other = meter.other) ∨
    ((record root meter usage ctx).byModel = meter.byModel ∧
      (record root meter usage ctx).other = foldRow meter.other (rowOf usage)) := by
  unfold record
  dsimp only
  split
  · exact .inl ⟨_,_,rfl,rfl⟩
  · exact .inr ⟨rfl,rfl⟩

private theorem sessions_longer (meter : Meter) (id : Option String) :
    meter.sessionIds.length ≤ (match id with
      | some id => if id ∈ meter.sessionIds then meter.sessionIds else meter.sessionIds ++ [id]
      | none => meter.sessionIds).length := by
  split
  · split
    · exact le_refl _
    · simp
  · exact le_refl _

/-- What a record adds to the totals. -/
private theorem record_totals (root : Option String) (meter : Meter) (usage : Option Usage) (ctx : CallContext) :
    let next := record root meter usage ctx
    next.input = meter.input + (rowOf usage).input ∧ next.output = meter.output + (rowOf usage).output ∧
      next.total = meter.total + (rowOf usage).total ∧ next.cost = meter.cost + (rowOf usage).cost ∧
      next.unpriced = meter.unpriced + (rowOf usage).unpriced ∧ next.calls = meter.calls ∧
      next.unresolved = meter.unresolved ∧ next.unreported = meter.unreported ∧
      meter.sessionIds.length ≤ next.sessionIds.length := by
  have sessions := sessions_longer meter
  unfold record
  dsimp only
  split
  · exact ⟨rfl,rfl,rfl,rfl,rfl,rfl,rfl,rfl,sessions _⟩
  · exact ⟨rfl,rfl,rfl,rfl,rfl,rfl,rfl,rfl,sessions _⟩

private theorem record_recorded (root : Option String) (meter : Meter) (usage : Option Usage) (ctx : CallContext)
    (distinct : (meter.byModel.map Prod.fst).Nodup) :
    (record root meter usage ctx).recorded = foldRow meter.recorded (rowOf usage) := by
  unfold recorded held
  rcases record_byModel root meter usage ctx with ⟨provider,model,landing,other⟩ | ⟨landing,other⟩
  · rw [landing,other]
    exact landed_folded provider model (rowOf usage) meter.other distinct
  · rw [landing,other,folded_foldRow]

private theorem record_whole {meter : Meter} (whole : Whole { meter with unresolved := meter.unresolved + 1 })
    (root : Option String) (usage : Option Usage) (ctx : CallContext) : Whole (record root meter usage ctx) := by
  have recorded : (record root meter usage ctx).recorded = foldRow meter.recorded (rowOf usage) :=
    record_recorded root meter usage ctx whole.distinct
  obtain ⟨input,output,total,cost,unpriced,calls,unresolved,_,_⟩ := record_totals root meter usage ctx
  have positive := rowOf_positive usage
  refine ⟨?_,?_,?_,?_,?_,?_,?_,?_,?_,?_⟩
  · have before : meter.calls = meter.unresolved + 1 + meter.recorded.calls := whole.calls
    rw [recorded,calls,unresolved,before]
    change _ = meter.unresolved + (meter.recorded.calls + 1)
    omega
  · rw [recorded,input]
    exact congrArg (· + _) whole.input
  · rw [recorded,output]
    exact congrArg (· + _) whole.output
  · rw [recorded,total]
    exact congrArg (· + _) whole.total
  · rw [recorded,cost]
    exact congrArg (· + _) whole.cost
  · rw [recorded,unpriced]
    exact congrArg (· + _) whole.unpriced
  · rcases record_byModel root meter usage ctx with ⟨provider,model,landing,_⟩ | ⟨landing,_⟩
    · rw [landing]
      exact landed_named whole.named positive Nat.one_pos
    · rw [landing]
      exact whole.named
  · rcases record_byModel root meter usage ctx with ⟨provider,model,landing,_⟩ | ⟨landing,_⟩
    · rw [landing,landed_keys]
      split
      · exact whole.distinct
      next fresh =>
        rw [any_iff] at fresh
        exact List.nodup_append.mpr ⟨whole.distinct,by simp,by
          intro key inside other same
          rw [List.mem_singleton.mp same]
          rintro rfl
          exact fresh inside⟩
    · rw [landing]
      exact whole.distinct
  · rcases record_byModel root meter usage ctx with ⟨_,_,_,other⟩ | ⟨_,other⟩
    · rw [other]
      exact whole.other
    · rw [other]
      exact whole.other.fold positive
  · rcases record_byModel root meter usage ctx with ⟨_,_,_,other⟩ | ⟨_,other⟩
    · rw [other]
      exact whole.idle
    · rw [other]
      intro none
      change meter.other.calls + 1 = 0 at none
      omega

private theorem record_grown (root : Option String) (meter : Meter) (usage : Option Usage) (ctx : CallContext) :
    Grown meter (record root meter usage ctx) := by
  obtain ⟨input,output,total,cost,unpriced,calls,_,unreported,sessions⟩ := record_totals root meter usage ctx
  have positive := rowOf_positive usage
  refine ⟨calls.ge,?_,?_,?_,?_,?_,unreported.ge,sessions,?_,?_⟩
  · rw [input]
    exact le_add_of_nonneg_right positive.input
  · rw [output]
    exact le_add_of_nonneg_right positive.output
  · rw [total]
    exact le_add_of_nonneg_right positive.total
  · rw [cost]
    exact le_add_of_nonneg_right positive.cost
  · rw [unpriced]
    exact Nat.le_add_right _ _
  · rcases record_byModel root meter usage ctx with ⟨_,_,_,other⟩ | ⟨_,other⟩
    · rw [other]
      exact .rfl _
    · rw [other]
      exact foldRow_grows _ positive
  · rcases record_byModel root meter usage ctx with ⟨provider,model,landing,_⟩ | ⟨landing,_⟩
    · rw [landing]
      exact landed_later positive
    · rw [landing]
      exact (Grown.rfl meter).named

theorem observe_whole {meter : Meter} (whole : meter.Whole) (seen : Option Nat) : (meter.observe seen).Whole := by
  refine ⟨?_,whole.input,whole.output,whole.total,whole.cost,whole.unpriced,whole.named,whole.distinct,whole.other,whole.idle⟩
  have calls := whole.calls
  change meter.calls + 1 = meter.unresolved + 1 + meter.recorded.calls
  omega

theorem observe_grown (meter : Meter) (seen : Option Nat) : meter.Grown (meter.observe seen) :=
  ⟨Nat.le_succ _,le_refl _,le_refl _,le_refl _,le_refl _,le_refl _,le_refl _,le_refl _,.rfl _,(Grown.rfl meter).named⟩

private theorem judged_record {meter : Meter} (message : Option Message) (ctx : CallContext) (forwarded : Bool) :
    (meter.judgeUsage message ctx forwarded = meter) ∨
      (meter.judgeUsage message ctx forwarded = { meter with unreported := meter.unreported + 1 }) := by
  unfold judgeUsage
  split
  · exact .inl rfl
  · split
    · exact .inr rfl
    · exact .inl rfl

private theorem settle_record (root : Option String) (meter : Meter) (ctx : CallContext) (settled : Settled) :
    ∃ more usage, settle root meter ctx settled =
      record root { meter with unresolved := meter.unresolved - 1, unreported := meter.unreported + more } usage ctx := by
  unfold settle
  cases settled with
  | message message forwarded =>
    dsimp only
    rcases @judged_record { meter with unresolved := meter.unresolved - 1 } message ctx forwarded with same | same
    · exact ⟨0,_,by rw [same]; rfl⟩
    · exact ⟨1,_,by rw [same]⟩
  | rejected => exact ⟨0,_,rfl⟩
  | counted => exact ⟨0,_,rfl⟩

theorem settle_whole {meter : Meter} (whole : meter.Whole) (open' : 0 < meter.unresolved) (root : Option String)
    (ctx : CallContext) (settled : Settled) : (meter.settle root ctx settled).Whole := by
  obtain ⟨more,usage,same⟩ := settle_record root meter ctx settled
  rw [same]
  refine record_whole ?_ root usage ctx
  dsimp only
  rw [Nat.sub_add_cancel open']
  exact ⟨whole.calls,whole.input,whole.output,whole.total,whole.cost,whole.unpriced,whole.named,whole.distinct,whole.other,
    whole.idle⟩

theorem settle_grown (meter : Meter) (root : Option String) (ctx : CallContext) (settled : Settled) :
    meter.Grown (meter.settle root ctx settled) := by
  obtain ⟨more,usage,same⟩ := settle_record root meter ctx settled
  rw [same]
  have grown := record_grown root
    { meter with unresolved := meter.unresolved - 1, unreported := meter.unreported + more } usage ctx
  exact ⟨grown.calls,grown.input,grown.output,grown.total,grown.cost,grown.unpriced,
    Nat.le_trans (Nat.le_add_right _ _) grown.unreported,grown.sessions,grown.other,grown.named⟩

theorem settle_unresolved (meter : Meter) (root : Option String) (ctx : CallContext) (settled : Settled) :
    (meter.settle root ctx settled).unresolved = meter.unresolved - 1 := by
  obtain ⟨more,usage,same⟩ := settle_record root meter ctx settled
  rw [same]
  exact (record_totals root _ usage ctx).2.2.2.2.2.2.1

theorem initial_whole : Meter.initial.Whole :=
  ⟨rfl,rfl,rfl,rfl,rfl,rfl,nofun,List.nodup_nil,.rfl _,fun _ => rfl⟩

end Meter

end PiDispatch.UsageMeter
