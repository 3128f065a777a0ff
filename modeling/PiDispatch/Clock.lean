import Mathlib.Data.List.Basic
import Mathlib.Data.Nat.Digits.Defs
import Mathlib.Algebra.Order.Group.Unbundled.Int

/-! Instants and the UTC dates the window keys are built from. An instant counts milliseconds from the
start of 1970; days are counted as integers, since the Monday of the first days of 1970 lies before it. -/
namespace PiDispatch

abbrev Instant := Nat

/-- A day of the proleptic Gregorian calendar. -/
structure Day where
  year : Int
  month : Nat
  day : Nat
  deriving DecidableEq, Repr

namespace Clock

def dayNumber (now : Instant) : Int := now / 86400000

/-- The calendar day of a day number: years start in March here, so that the leap day comes last. -/
def civil (number : Int) : Day :=
  let shifted := number + 719468
  let era := shifted / 146097
  let dayOfEra := shifted % 146097
  let yearOfEra := (dayOfEra - dayOfEra / 1460 + dayOfEra / 36524 - dayOfEra / 146096) / 365
  let dayOfYear := dayOfEra - (365 * yearOfEra + yearOfEra / 4 - yearOfEra / 100)
  let marchMonth := (5 * dayOfYear + 2) / 153
  let month := if marchMonth < 10 then marchMonth + 3 else marchMonth - 9
  { year := yearOfEra + era * 400 + (if month ≤ 2 then 1 else 0)
    month := month.toNat
    day := (dayOfYear - (153 * marchMonth + 2) / 5 + 1).toNat }

/-- The day number of a date, `day` counted on past the month's end as `Date.UTC` counts it. -/
def numberOf (year month day : Int) : Int :=
  let marchYear := if month ≤ 2 then year - 1 else year
  let marchMonth := if month ≤ 2 then month + 9 else month - 3
  let yearOfEra := marchYear % 400
  let dayOfYear := (153 * marchMonth + 2) / 5 + day - 1
  marchYear / 400 * 146097 + yearOfEra * 365 + yearOfEra / 4 - yearOfEra / 100 + dayOfYear - 719468

/-- `getUTCDay`: Sunday is 0. -/
def weekday (number : Int) : Int := (number + 4) % 7

def monday (number : Int) : Int := number - (weekday number + 6) % 7

def padded (width number : Nat) : List Char :=
  List.replicate (width - (Nat.toDigits 10 number).length) '0' ++ Nat.toDigits 10 number

/-- The date part of `toISOString`: four digits for a year, or a sign and six outside 0 to 9999. -/
def isoDate (day : Day) : List Char :=
  let year :=
    if 0 ≤ day.year ∧ day.year ≤ 9999 then padded 4 day.year.toNat
    else (if day.year < 0 then '-' else '+') :: padded 6 day.year.natAbs
  year ++ '-' :: padded 2 day.month ++ '-' :: padded 2 day.day

def slice (count : Nat) (text : List Char) : String := String.ofList (text.take count)

/-- `toISOString` of milliseconds before or after the start of 1970; none beyond the range of a date. -/
def isoInstant (now : Int) : Option (List Char) :=
  if now < -8640000000000000 ∨ 8640000000000000 < now then none
  else
    let time := (now % 86400000).toNat
    some (isoDate (civil (now / 86400000)) ++ 'T' :: padded 2 (time / 3600000) ++ ':' :: padded 2 (time / 60000 % 60) ++
      ':' :: padded 2 (time / 1000 % 60) ++ '.' :: padded 3 (time % 1000) ++ ['Z'])

theorem padded_length (width number : Nat) : width ≤ (padded width number).length := by
  simp only [padded,List.length_append,List.length_replicate]
  omega

theorem isoDate_length (day : Day) : 10 ≤ (isoDate day).length := by
  have years := padded_length 4 day.year.toNat
  have longYears := padded_length 6 day.year.natAbs
  have months := padded_length 2 day.month
  have days := padded_length 2 day.day
  unfold isoDate
  split <;> simp only [List.length_append,List.length_cons] <;> omega

theorem slice_length (count : Nat) (text : List Char) (long : count ≤ text.length) :
    (slice count text).toList.length = count := by
  simp [slice,long]

theorem padded_short {width number digits : Nat} (some' : 0 < digits) (less : number < 10 ^ digits) :
    (padded width number).length ≤ max width digits := by
  have own := Nat.toDigits_length 10 number digits some' less
  simp only [padded,List.length_append,List.length_replicate]
  omega

theorem padded_digits (width number : Nat) : ∀ letter ∈ padded width number, letter.isDigit := by
  intro letter member
  rcases List.mem_append.mp member with zero | own
  · rw [List.eq_of_mem_replicate zero]
    decide
  · exact Nat.isDigit_of_mem_toDigits (by decide) (by decide) own

theorem civil_month (number : Int) : (civil number).month < 100 := by
  unfold civil
  dsimp only
  split <;> omega

theorem civil_range {number : Int} (least : -100000000 ≤ number) (most : number ≤ 100000000) :
    (civil number).year.natAbs < 1000000 ∧ (civil number).day < 1000000 := by
  unfold civil
  dsimp only
  refine ⟨?_,?_⟩
  · split <;> omega
  · omega

theorem isoInstant_length {now : Int} {at' : List Char} (found : isoInstant now = some at') : at'.length ≤ 40 := by
  unfold isoInstant at found
  split at found
  · cases found
  next within =>
    rw [← Option.some.inj found]
    obtain ⟨year,day⟩ := @civil_range (now / 86400000) (by omega) (by omega)
    have month := civil_month (now / 86400000)
    have years := @padded_short 4 (civil (now / 86400000)).year.toNat 6 (by decide) (by omega)
    have longYears := @padded_short 6 (civil (now / 86400000)).year.natAbs 6 (by decide) year
    have months := @padded_short 2 (civil (now / 86400000)).month 2 (by decide) month
    have days := @padded_short 2 (civil (now / 86400000)).day 6 (by decide) day
    have time : (now % 86400000).toNat < 86400000 := by omega
    have hours := @padded_short 2 ((now % 86400000).toNat / 3600000) 2 (by decide) (by omega)
    have minutes := @padded_short 2 ((now % 86400000).toNat / 60000 % 60) 2 (by decide) (by omega)
    have seconds := @padded_short 2 ((now % 86400000).toNat / 1000 % 60) 2 (by decide) (by omega)
    have parts := @padded_short 3 ((now % 86400000).toNat % 1000) 3 (by decide) (by omega)
    have date : (isoDate (civil (now / 86400000))).length ≤ 17 := by
      unfold isoDate
      split <;> simp only [List.length_append,List.length_cons] <;> omega
    simp only [List.length_append,List.length_cons,List.length_nil]
    omega

/-- A year of four digits and a month of two begin the text, where the year has no sign. -/
theorem isoInstant_month {now : Int} {at' : List Char} (found : isoInstant now = some at')
    (year : 0 ≤ (civil (now / 86400000)).year ∧ (civil (now / 86400000)).year ≤ 9999) :
    ∃ a b c d e f rest, at' = a :: b :: c :: d :: '-' :: e :: f :: rest ∧ [a,b,c,d,e,f].all Char.isDigit = true := by
  unfold isoInstant at found
  split at found
  · cases found
  rw [← Option.some.inj found]
  unfold isoDate
  rw [if_pos year]
  have four : (padded 4 (civil (now / 86400000)).year.toNat).length = 4 :=
    le_antisymm (@padded_short 4 _ 4 (by decide) (by omega)) (padded_length _ _)
  have two : (padded 2 (civil (now / 86400000)).month).length = 2 :=
    le_antisymm (@padded_short 2 _ 2 (by decide) (civil_month _)) (padded_length _ _)
  have digits := padded_digits 4 (civil (now / 86400000)).year.toNat
  have digits' := padded_digits 2 (civil (now / 86400000)).month
  obtain ⟨a,b,c,d,years⟩ := List.length_eq_four.mp four
  obtain ⟨e,f,months⟩ := List.length_eq_two.mp two
  rw [years] at digits ⊢
  rw [months] at digits' ⊢
  refine ⟨a,b,c,d,e,f,_,rfl,?_⟩
  rw [List.all_eq_true]
  intro letter inside
  simp only [List.mem_cons,List.not_mem_nil,or_false] at inside
  rcases inside with rfl | rfl | rfl | rfl | rfl | rfl
  · exact digits _ (by simp)
  · exact digits _ (by simp)
  · exact digits _ (by simp)
  · exact digits _ (by simp)
  · exact digits' _ (by simp)
  · exact digits' _ (by simp)

private theorem century_year {dayOfEra century year : Int} (low : 0 ≤ dayOfEra) (high : dayOfEra < 146096)
    (within : century = dayOfEra / 36524) (rounds : year = (dayOfEra - dayOfEra / 1460 + century) / 365) :
    (0 ≤ year ∧ year < 400) ∧ 365 * year + year / 4 - year / 100 ≤ dayOfEra ∧
      dayOfEra ≤ 365 * year + year / 4 - year / 100 + 365 := by
  have hundreds : century = 0 ∨ century = 1 ∨ century = 2 ∨ century = 3 := by omega
  have same : year / 100 = century := by rcases hundreds with rfl | rfl | rfl | rfl <;> omega
  have least : year / 4 ≤ dayOfEra / 1460 := by rcases hundreds with rfl | rfl | rfl | rfl <;> omega
  have most : dayOfEra / 1460 ≤ year / 4 + 1 := by omega
  omega

private theorem era_year {dayOfEra : Int} (low : 0 ≤ dayOfEra) (high : dayOfEra < 146097) {year : Int}
    (rounds : year = (dayOfEra - dayOfEra / 1460 + dayOfEra / 36524 - dayOfEra / 146096) / 365) :
    (0 ≤ year ∧ year < 400) ∧ 365 * year + year / 4 - year / 100 ≤ dayOfEra ∧
      dayOfEra ≤ 365 * year + year / 4 - year / 100 + 365 := by
  by_cases last : dayOfEra = 146096
  · subst last
    omega
  · refine century_year low (by omega) rfl ?_
    rw [rounds,Int.ediv_eq_zero_of_lt low (by omega : dayOfEra < 146096),sub_zero]

/-- A day number is its era, the year of it and the day of the year; the month follows from the last. -/
private theorem civil_shape (number : Int) : ∃ era year dayOfYear month : Int,
    number + 719468 = era * 146097 + (365 * year + year / 4 - year / 100) + dayOfYear ∧ (0 ≤ year ∧ year < 400) ∧
    (0 ≤ dayOfYear ∧ dayOfYear ≤ 365) ∧ month = (5 * dayOfYear + 2) / 153 ∧
    (civil number).year = year + era * 400 + (if (if month < 10 then month + 3 else month - 9) ≤ 2 then 1 else 0) ∧
    (civil number).month = (if month < 10 then month + 3 else month - 9).toNat ∧
    (civil number).day = (dayOfYear - (153 * month + 2) / 5 + 1).toNat := by
  obtain ⟨range,begun,ended⟩ := @era_year ((number + 719468) % 146097) (by omega) (by omega) _ rfl
  refine ⟨(number + 719468) / 146097,_,_,_,?_,range,⟨sub_nonneg.mpr begun,?_⟩,rfl,rfl,rfl,rfl⟩
  · have parts := Int.mul_ediv_add_emod (number + 719468) 146097
    omega
  · omega

/-- A day's date gives the day number back. -/
theorem numberOf_civil (number : Int) :
    numberOf (civil number).year (civil number).month (civil number).day = number := by
  obtain ⟨era,year,dayOfYear,month,parts,range,days,months,year',month',day'⟩ := civil_shape number
  have low : 0 ≤ month ∧ month ≤ 11 := by omega
  have first : 0 ≤ dayOfYear - (153 * month + 2) / 5 := by omega
  have whole : (year + era * 400) / 400 = era := by omega
  have own : (year + era * 400) % 400 = year := by omega
  rw [year',month',day']
  unfold numberOf
  dsimp only
  by_cases late : month < 10
  · have after : ¬((month + 3).toNat : Int) ≤ 2 := by omega
    have after' : ¬month + 3 ≤ 2 := by omega
    have same : (153 * (((month + 3).toNat : Int) - 3) + 2) / 5 = (153 * month + 2) / 5 := by omega
    simp only [if_pos late,if_neg after,if_neg after',add_zero,whole,own,same]
    omega
  · have after : ((month - 9).toNat : Int) ≤ 2 := by omega
    have after' : month - 9 ≤ 2 := by omega
    have same : (153 * (((month - 9).toNat : Int) + 9) + 2) / 5 = (153 * month + 2) / 5 := by omega
    simp only [if_neg late,if_pos after,if_pos after',add_sub_cancel_right,whole,own,same]
    omega

example : isoDate (civil (dayNumber 1782864000000)) = "2026-07-01".toList := by decide

example : isoInstant 1782864012345 = some "2026-07-01T00:00:12.345Z".toList := by decide

end Clock

end PiDispatch
