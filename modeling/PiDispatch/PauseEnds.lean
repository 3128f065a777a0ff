import PiDispatch.PauseWindows
import Mathlib.Tactic.Linarith

/-! Whether a pause ends after the instant it is asked at: the end is the closing wall time read as UTC, less what the
zone's clock is ahead there and not what it is ahead now. -/
namespace PiDispatch.PauseWindows

variable {zones : String → Zone} {nfc : String → String} {w : Window} {windows : List Window} {job : Job} {now : Int}

/-- The closing wall time of the occurrence that is active now, read as UTC. -/
def closing (zones : String → Zone) (w : Window) (now : Int) : Option Int :=
  let p := zonedParts (zones w.tz) now
  let nowMin := p.hh * 60 + p.mi
  let closes := fun date : Parts => dateUTC date.y date.mo date.d (w.toMin / 60) (w.toMin % 60)
  if w.fromMin < w.toMin then
    if nowMin ≥ w.fromMin ∧ nowMin < w.toMin ∧ qualifies w p then some (closes p) else none
  else if nowMin ≥ w.fromMin ∧ qualifies w p then some (closes (shiftDay (zones w.tz) p 1))
  else if nowMin < w.toMin ∧ qualifies w (shiftDay (zones w.tz) p (-1)) then some (closes p)
  else none

/-- How far the wall clock is ahead of UTC at an instant, by its parts. -/
def ahead (zone : Zone) (ms : Int) : Int :=
  let shown := zonedParts zone ms
  dateUTC shown.y shown.mo shown.d shown.hh shown.mi - ms

/-- Where the closing wall time would be UTC's, the zone's clock is ahead by less than what is left until then. -/
def InTime (zones : String → Zone) (w : Window) (now : Int) : Prop :=
  ∀ closes ∈ closing zones w now, ahead (zones w.tz) closes < closes - now

theorem windowEndAt_closing :
    windowEndAt zones w now = (closing zones w now).map fun closes => closes - ahead (zones w.tz) closes := by
  unfold windowEndAt closing
  dsimp only
  split
  · split <;> rfl
  · split
    · rfl
    · split <;> rfl

private theorem windowEndAt_after :
    (∀ e, windowEndAt zones w now = some e → now < e) ↔ InTime zones w now := by
  rw [windowEndAt_closing]
  unfold InTime
  constructor
  · intro after closes member
    have later := after (closes - ahead (zones w.tz) closes) (by rw [Option.mem_def.mp member]; rfl)
    omega
  · intro less e found
    obtain ⟨closes,member,rfl⟩ := Option.map_eq_some_iff.mp found
    have left := less closes member
    omega

/-- The windows that are for the job's scope and active, in their ends. -/
private def active (zones : String → Zone) (nfc : String → String) (windows : List Window) (job : Job) (now : Int) : List Int :=
  (windows.filter (covers nfc job)).filterMap fun w => windowEndAt zones w now

private def later (end' : Option Int) (e : Int) : Option Int := if end'.all fun last => e > last then some e else end'

private theorem active_cons : active zones nfc (w :: windows) job now =
    if covers nfc job w then (windowEndAt zones w now).toList ++ active zones nfc windows job now
    else active zones nfc windows job now := by
  unfold active
  rw [List.filter_cons]
  split
  · rw [List.filterMap_cons]
    cases windowEndAt zones w now <;> rfl
  · rfl

private theorem active_foldl (start : Option Int) : windows.foldl (fun end' w =>
    if covers nfc job w then
      match windowEndAt zones w now with
      | some e => if end'.all fun last => e > last then some e else end'
      | none => end'
    else end') start = (active zones nfc windows job now).foldl later start := by
  induction windows generalizing start with
  | nil => rfl
  | cons w windows ih =>
    rw [List.foldl_cons,ih,active_cons]
    split
    · cases windowEndAt zones w now <;> rfl
    · rfl

private theorem pauseUntilMs_active (some' : isNonEmptyString (scopeOf job) = true) :
    pauseUntilMs zones nfc windows job now = (active zones nfc windows job now).foldl later none := by
  unfold pauseUntilMs
  rw [if_pos some']
  exact active_foldl none

private theorem foldl_later (ends : List Int) (start : Int) :
    ∃ last, ends.foldl later (some start) = some last ∧ start ≤ last ∧ (∀ e ∈ ends, e ≤ last) ∧
      (last = start ∨ last ∈ ends) := by
  induction ends generalizing start with
  | nil => exact ⟨start,rfl,le_refl _,(fun _ none => nomatch none),.inl rfl⟩
  | cons e ends ih =>
    have step : later (some start) e = some (max start e) := by
      unfold later
      rw [Option.all_some]
      split
      next more => rw [max_eq_right (of_decide_eq_true more).le]
      next less =>
        rw [decide_eq_true_eq] at less
        rw [max_eq_left (not_lt.mp less)]
    obtain ⟨last,found,least,most,origin⟩ := ih (max start e)
    rw [List.foldl_cons,step]
    refine ⟨last,found,(le_max_left _ _).trans least,?_,?_⟩
    · intro other member
      rcases List.mem_cons.mp member with rfl | rest
      · exact (le_max_right _ _).trans least
      · exact most other rest
    · rcases origin with same | inside
      · rcases max_choice start e with first | second
        · exact .inl (same.trans first)
        · exact .inr (List.mem_cons.mpr (.inl (same.trans second)))
      · exact .inr (List.mem_cons_of_mem _ inside)

private theorem latest_after (ends : List Int) :
    (∀ e, ends.foldl later none = some e → now < e) ↔ ends = [] ∨ ∃ e ∈ ends, now < e := by
  cases ends with
  | nil => exact ⟨fun _ => .inl rfl,fun _ _ none => nomatch none⟩
  | cons first ends =>
    have begin' : later none first = some first := rfl
    obtain ⟨last,found,least,most,origin⟩ := foldl_later ends first
    rw [List.foldl_cons,begin',found]
    constructor
    · intro after
      refine .inr ⟨last,?_,after last rfl⟩
      rcases origin with rfl | inside
      · exact List.mem_cons_self
      · exact List.mem_cons_of_mem _ inside
    · rintro (none | ⟨e,member,after⟩) _ ⟨rfl⟩
      · cases none
      · rcases List.mem_cons.mp member with rfl | rest
        · exact after.trans_le least
        · exact after.trans_le (most e rest)

private theorem pauseUntilMs_after (some' : isNonEmptyString (scopeOf job) = true) :
    (∀ e, pauseUntilMs zones nfc windows job now = some e → now < e) ↔
      (∀ w ∈ windows, covers nfc job w = true → closing zones w now = none) ∨
        ∃ w ∈ windows, covers nfc job w = true ∧ closing zones w now ≠ none ∧ InTime zones w now := by
  rw [pauseUntilMs_active some',latest_after]
  refine or_congr ⟨?_,?_⟩ ⟨?_,?_⟩
  · intro empty w member covered
    by_contra open'
    obtain ⟨closes,found⟩ := Option.ne_none_iff_exists'.mp open'
    have inside : closes - ahead (zones w.tz) closes ∈ active zones nfc windows job now :=
      List.mem_filterMap.mpr ⟨w,List.mem_filter.mpr ⟨member,covered⟩,by rw [windowEndAt_closing,found]; rfl⟩
    rw [empty] at inside
    cases inside
  · intro none
    refine List.filterMap_eq_nil_iff.mpr ?_
    intro w inside
    obtain ⟨member,covered⟩ := List.mem_filter.mp inside
    rw [windowEndAt_closing,none w member covered]
    rfl
  · rintro ⟨e,inside,after⟩
    obtain ⟨w,there,found⟩ := List.mem_filterMap.mp inside
    obtain ⟨member,covered⟩ := List.mem_filter.mp there
    refine ⟨w,member,covered,?_,?_⟩
    · intro none
      rw [windowEndAt_closing,none] at found
      cases found
    · refine windowEndAt_after.mp ?_
      intro other same
      obtain rfl : e = other := Option.some.inj (found.symm.trans same)
      exact after
  · rintro ⟨w,member,covered,open',inTime⟩
    obtain ⟨closes,found⟩ := Option.ne_none_iff_exists'.mp open'
    have ends : windowEndAt zones w now = some (closes - ahead (zones w.tz) closes) := by
      rw [windowEndAt_closing,found]
      rfl
    exact ⟨_,List.mem_filterMap.mpr ⟨w,List.mem_filter.mpr ⟨member,covered⟩,ends⟩,windowEndAt_after.mpr inTime _ ends⟩

private theorem dateUTC_minutes (y mo d hh mi : Int) : dateUTC y mo d hh mi % 60000 = 0 := by
  unfold dateUTC
  omega

private theorem closing_minutes {closes : Int} (found : closing zones w now = some closes) : closes % 60000 = 0 := by
  unfold closing at found
  dsimp only at found
  split at found
  · split at found
    · rw [← Option.some.inj found]
      exact dateUTC_minutes ..
    · cases found
  · split at found
    · rw [← Option.some.inj found]
      exact dateUTC_minutes ..
    · split at found
      · rw [← Option.some.inj found]
        exact dateUTC_minutes ..
      · cases found

/-- The parts of a whole minute, read as UTC, are the wall clock, except in years of two digits and before them. -/
theorem ahead_zone {zone : Zone} {ms : Int} (minute : ms % 60000 = 0)
    (year : 100 ≤ (Clock.civil ((ms + zone ms * 60000) / 86400000)).year) : ahead zone ms = zone ms * 60000 := by
  have date := Clock.numberOf_civil ((ms + zone ms * 60000) / 86400000)
  have four : ¬(Clock.civil ((ms + zone ms * 60000) / 86400000)).year ≤ 0 := by omega
  have two : ¬(0 ≤ (Clock.civil ((ms + zone ms * 60000) / 86400000)).year ∧
      (Clock.civil ((ms + zone ms * 60000) / 86400000)).year ≤ 99) := by omega
  unfold ahead zonedParts dateUTC
  dsimp only
  rw [if_neg four,if_neg two,date]
  omega

/-- A pause ends after the instant it is asked at exactly where the zone's clock, at the UTC time that reads as the
closing wall time, is ahead by less than what is left; outside the first years that is to say that the offset there
exceeds the offset now by less than what the wall clock has left to go. A job is put off to a later instant exactly where
one of the windows that pause it ends so, or none pauses it. -/
theorem pause_ends_after (zones : String → Zone) (now : Int) :
    (∀ w, (∀ e, windowEndAt zones w now = some e → now < e) ↔ InTime zones w now) ∧
    (∀ w closes, closing zones w now = some closes →
      100 ≤ (Clock.civil ((closes + zones w.tz closes * 60000) / 86400000)).year →
      (InTime zones w now ↔
        (zones w.tz closes - zones w.tz now) * 60000 < closes - (now + zones w.tz now * 60000))) ∧
    (∀ nfc windows job, (∀ e, pauseUntilMs zones nfc windows job now = some e → now < e) ↔
      (isNonEmptyString (scopeOf job) = true →
        (∀ w ∈ windows, covers nfc job w = true → closing zones w now = none) ∨
          ∃ w ∈ windows, covers nfc job w = true ∧ closing zones w now ≠ none ∧ InTime zones w now)) := by
  refine ⟨fun _ => windowEndAt_after,?_,?_⟩
  · intro w closes found year
    have offset := ahead_zone (closing_minutes found) year
    unfold InTime
    rw [found]
    constructor
    · intro less
      have left := less closes rfl
      omega
    · rintro left _ ⟨rfl⟩
      omega
  · intro nfc windows job
    by_cases some' : isNonEmptyString (scopeOf job) = true
    · rw [pauseUntilMs_after some']
      exact ⟨fun either _ => either,fun either => either some'⟩
    · constructor
      · exact fun _ scope => absurd scope some'
      · intro _ e found
        unfold pauseUntilMs at found
        rw [if_neg some'] at found
        cases found

/-- New York's clock around the second of November 2025, when it goes back an hour at 06:00 UTC. -/
def newYork (ms : Int) : Int := if ms < 1762063200000 then -240 else -300

def nightly : Window := ⟨"*",30,90,"America/New_York",none,none,none,by decide,by decide,by decide⟩

/-- Ten minutes into the hour that comes twice, the end is the one of the first time round. -/
theorem past_end : ¬ ∀ (zones : String → Zone) (w : Window) (now e : Int), windowEndAt zones w now = some e → now < e := by
  intro claim
  have ends : windowEndAt (fun _ => newYork) nightly 1762063800000 = some 1762061400000 := by decide +kernel
  exact absurd (claim _ _ _ _ ends) (by decide)

end PiDispatch.PauseWindows
