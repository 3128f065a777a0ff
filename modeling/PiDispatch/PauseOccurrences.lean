import PiDispatch.PauseEnds

/-! Windows by their occurrences, in a zone of one offset: an occurrence starts on a date that the window allows, at its
local `from`, and ends at the next local `to`. -/
namespace PiDispatch.PauseWindows
open Kernel

variable {zones : String → Zone} {zone : Zone} {w : Window} {c now day : Int}

/-- The day that the clock of the zone shows. -/
def localDay (c now : Int) : Int := (now + c * 60000) / 86400000

def localMinute (c now : Int) : Int := (now + c * 60000) % 86400000 / 60000

/-- Whether an occurrence may start on a day, by its weekday and its date. -/
structure Allowed (w : Window) (day : Int) : Prop where
  days : ∀ days ∈ w.days, ∃ name ∈ days, DAYS[(Clock.weekday day).toNat]? = some name
  dateFrom : ∀ dateFrom ∈ w.dateFrom, notAfter dateFrom (String.ofList (Clock.isoDate (Clock.civil day))) = true
  dateTo : ∀ dateTo ∈ w.dateTo, notAfter (String.ofList (Clock.isoDate (Clock.civil day))) dateTo = true

/-- The instant of a local minute of a day. -/
def instantOf (c day minute : Int) : Int := day * 86400000 + (minute - c) * 60000

def starts (w : Window) (c day : Int) : Int := instantOf c day w.fromMin

def ends (w : Window) (c day : Int) : Int := instantOf c (if w.fromMin < w.toMin then day else day + 1) w.toMin

/-- The occurrence that starts on the day contains the instant. -/
structure Occurs (w : Window) (c day now : Int) : Prop where
  allowed : Allowed w day
  begun : starts w c day ≤ now
  running : now < ends w c day

/-- The dates around a day are of three or four digits in their year. -/
def Dated (c day reach : Int) : Prop :=
  ∀ other, |other - day| ≤ reach + |c| / 1440 → 100 ≤ (Clock.civil other).year ∧ (Clock.civil other).year ≤ 9999

private theorem dated_self {reach : Int} (dated : Dated c day reach) (some' : 0 ≤ reach) {other : Int}
    (near : |other - day| ≤ reach) : 100 ≤ (Clock.civil other).year ∧ (Clock.civil other).year ≤ 9999 := by
  refine dated other ?_
  have more : 0 ≤ |c| / 1440 := Int.ediv_nonneg (abs_nonneg c) (by decide)
  omega

/-- The parts of a moment of a day. -/
private def partsOf (day minute : Int) : Parts :=
  ⟨if (Clock.civil day).year ≤ 0 then 1 - (Clock.civil day).year else (Clock.civil day).year,(Clock.civil day).month,
    (Clock.civil day).day,minute / 60,minute % 60,Clock.weekday day⟩

private theorem zonedParts_const (fixed : ∀ ms, zone ms = c) (ms : Int) :
    zonedParts zone ms = partsOf (localDay c ms) (localMinute c ms) := by
  unfold zonedParts partsOf localDay localMinute
  dsimp only
  rw [fixed ms]
  have hours : (ms + c * 60000) / 3600000 % 24 = (ms + c * 60000) % 86400000 / 60000 / 60 := by omega
  have minutes : (ms + c * 60000) / 60000 % 60 = (ms + c * 60000) % 86400000 / 60000 % 60 := by omega
  rw [hours,minutes]

private theorem dateUTC_day (year : 100 ≤ (Clock.civil day).year) (minute hh mi : Int) :
    dateUTC (partsOf day minute).y (partsOf day minute).mo (partsOf day minute).d hh mi =
      day * 86400000 + (hh * 60 + mi) * 60000 := by
  have date := Clock.numberOf_civil day
  have four : ¬(Clock.civil day).year ≤ 0 := by omega
  have two : ¬(0 ≤ (Clock.civil day).year ∧ (Clock.civil day).year ≤ 99) := by omega
  unfold dateUTC partsOf
  dsimp only
  rw [if_neg four,if_neg two,date]

/-- A wall-clock time of a day is its instant. -/
private theorem wallToMs_const (fixed : ∀ ms, zone ms = c) (dated : Dated c day 1) (minute : Int) {hh mi : Int}
    (low : 0 ≤ hh * 60 + mi) (high : hh * 60 + mi ≤ 1439) :
    wallToMs zone (partsOf day minute).y (partsOf day minute).mo (partsOf day minute).d hh mi =
      instantOf c day (hh * 60 + mi) := by
  have year := (dated_self dated (by decide) (by rw [sub_self]; decide : |day - day| ≤ 1)).1
  have guess := dateUTC_day year minute hh mi
  have offset : ahead zone (day * 86400000 + (hh * 60 + mi) * 60000) = c * 60000 := by
    rw [← fixed (day * 86400000 + (hh * 60 + mi) * 60000)]
    refine ahead_zone (by omega) (dated _ ?_).1
    rw [fixed]
    rcases abs_cases c with ⟨same,_⟩ | ⟨same,_⟩
    · rw [same]
      refine abs_le.mpr ⟨?_,?_⟩ <;> omega
    · rw [same]
      refine abs_le.mpr ⟨?_,?_⟩ <;> omega
  unfold wallToMs
  dsimp only
  rw [guess]
  change _ - ahead zone _ = _
  rw [offset]
  unfold instantOf
  omega

private theorem localDay_instant (c day : Int) {minute : Int} (low : 0 ≤ minute) (high : minute ≤ 1439) :
    localDay c (instantOf c day minute) = day := by
  unfold localDay instantOf
  omega

private theorem localMinute_instant (c day : Int) {minute : Int} (low : 0 ≤ minute) (high : minute ≤ 1439) :
    localMinute c (instantOf c day minute) = minute := by
  unfold localMinute instantOf
  omega

/-- The date some days on. -/
private theorem shiftDay_const (fixed : ∀ ms, zone ms = c) (dated : Dated c day 1) (minute delta : Int) :
    shiftDay zone (partsOf day minute) delta = partsOf (day + delta) 720 := by
  unfold shiftDay
  dsimp only
  rw [wallToMs_const fixed dated minute (by decide) (by decide),zonedParts_const fixed]
  have moved : instantOf c day (12 * 60 + 0) + delta * 86400000 = instantOf c (day + delta) 720 := by
    unfold instantOf
    omega
  rw [moved,localDay_instant c _ (by decide) (by decide),localMinute_instant c _ (by decide) (by decide)]

private theorem ymd_isoDate (minute : Int) (low : 1 ≤ (Clock.civil day).year) (high : (Clock.civil day).year ≤ 9999) :
    ymd (partsOf day minute) = String.ofList (Clock.isoDate (Clock.civil day)) := by
  have some' : ¬(Clock.civil day).year ≤ 0 := by omega
  have four : 0 ≤ (Clock.civil day).year ∧ (Clock.civil day).year ≤ 9999 := ⟨by omega,high⟩
  unfold ymd partsOf Clock.isoDate
  dsimp only
  rw [if_neg some',if_pos four,Int.toNat_natCast,Int.toNat_natCast]

private theorem weekday_name (day : Int) : ∃ name, DAYS[(Clock.weekday day).toNat]? = some name := by
  have range : (Clock.weekday day).toNat < DAYS.length := by
    change (Clock.weekday day).toNat < 7
    unfold Clock.weekday
    omega
  exact ⟨_,List.getElem?_eq_getElem range⟩

private theorem qualifies_allowed (minute : Int) (low : 1 ≤ (Clock.civil day).year) (high : (Clock.civil day).year ≤ 9999) :
    qualifies w (partsOf day minute) = true ↔ Allowed w day := by
  obtain ⟨name,named⟩ := weekday_name day
  have date := ymd_isoDate minute low high
  unfold qualifies
  dsimp only
  rw [date]
  change (if (w.days.any fun days => decide (DAYS[(Clock.weekday day).toNat]?.getD "" ∉ days)) = true then _ else _) = _ ↔ _
  rw [named,Option.getD_some]
  generalize text : String.ofList (Clock.isoDate (Clock.civil day)) = date'
  constructor
  · intro qualified
    split at qualified
    · cases qualified
    next days =>
    split at qualified
    · cases qualified
    next first =>
    split at qualified
    · cases qualified
    next last =>
      refine ⟨?_,?_,?_⟩
      · intro given same
        rw [Option.mem_def.mp same,Option.any_some,decide_eq_true_eq,not_not] at days
        exact ⟨name,days,named⟩
      · intro given same
        rw [Option.mem_def.mp same,Option.any_some,Bool.not_eq_true,Bool.not_eq_false'] at first
        rw [text]
        exact first
      · intro given same
        rw [Option.mem_def.mp same,Option.any_some,Bool.not_eq_true,Bool.not_eq_false'] at last
        rw [text]
        exact last
  · intro allowed
    rw [if_neg,if_neg,if_neg]
    · intro late
      obtain ⟨given,same,after⟩ := (Option.any_eq_true _ _).mp late
      have fine := allowed.dateTo given same
      rw [text] at fine
      rw [fine] at after
      cases after
    · intro early
      obtain ⟨given,same,before⟩ := (Option.any_eq_true _ _).mp early
      have fine := allowed.dateFrom given same
      rw [text] at fine
      rw [fine] at before
      cases before
    · intro other
      obtain ⟨given,same,absent⟩ := (Option.any_eq_true _ _).mp other
      obtain ⟨own,member,same'⟩ := allowed.days given same
      obtain rfl : name = own := Option.some.inj (named.symm.trans same')
      exact of_decide_eq_true absent member

private theorem within_iff (w : Window) (c day now : Int) : (starts w c day ≤ now ∧ now < ends w c day) ↔
    if w.fromMin < w.toMin then day = localDay c now ∧ w.fromMin ≤ localMinute c now ∧ localMinute c now < w.toMin
    else (day = localDay c now ∧ w.fromMin ≤ localMinute c now) ∨ (day + 1 = localDay c now ∧ localMinute c now < w.toMin) := by
  have begin' := w.from_range
  have finish := w.to_range
  unfold starts ends instantOf localDay localMinute
  split <;> omega

/-- The instants of two days next to each other are dated when the dates around the first are. -/
private theorem dated_near {reach reach' other : Int} (dated : Dated c day reach) (near : |other - day| + reach' ≤ reach) :
    Dated c other reach' := by
  intro far close
  refine dated far ?_
  have through := abs_sub_le far other day
  omega

private theorem minute_range (c now : Int) : 0 ≤ localMinute c now ∧ localMinute c now ≤ 1439 := by
  unfold localMinute
  omega

/-- The end that the code gives is that of the occurrence that contains the instant. -/
private theorem windowEndAt_occurs (fixed : ∀ ms, zones w.tz ms = c) (dated : Dated c (localDay c now) 2) (e : Int) :
    windowEndAt zones w now = some e ↔ ∃ day, Occurs w c day now ∧ e = ends w c day := by
  have begin' := w.from_range
  have finish := w.to_range
  have minutes := minute_range c now
  have year (delta : Int) (near : |delta| ≤ 2) : 1 ≤ (Clock.civil (localDay c now + delta)).year ∧
      (Clock.civil (localDay c now + delta)).year ≤ 9999 := by
    obtain ⟨low,high⟩ := dated_self dated (by decide) (by rwa [add_sub_cancel_left] : |localDay c now + delta - localDay c now| ≤ 2)
    exact ⟨by omega,high⟩
  have here : Dated c (localDay c now) 1 := dated_near dated (by rw [sub_self]; decide)
  have next' : Dated c (localDay c now + 1) 1 := dated_near dated (by rw [add_sub_cancel_left]; decide)
  have today := @qualifies_allowed w (localDay c now) (localMinute c now) (by simpa using (year 0 (by decide)).1)
    (by simpa using (year 0 (by decide)).2)
  have yesterday := @qualifies_allowed w (localDay c now + -1) 720 (year (-1) (by decide)).1 (year (-1) (by decide)).2
  have closes (hh mi : Int) (low : 0 ≤ hh * 60 + mi) (high : hh * 60 + mi ≤ 1439) :=
    wallToMs_const fixed here (localMinute c now) low high
  have closes' (hh mi : Int) (low : 0 ≤ hh * 60 + mi) (high : hh * 60 + mi ≤ 1439) :=
    wallToMs_const fixed next' 720 low high
  have parts : (partsOf (localDay c now) (localMinute c now)).hh * 60 + (partsOf (localDay c now) (localMinute c now)).mi =
      localMinute c now := by
    change localMinute c now / 60 * 60 + localMinute c now % 60 = _
    omega
  have whole : w.toMin / 60 * 60 + w.toMin % 60 = w.toMin := by omega
  have occurs (day : Int) : Occurs w c day now ↔ Allowed w day ∧ starts w c day ≤ now ∧ now < ends w c day :=
    ⟨fun occurs => ⟨occurs.allowed,occurs.begun,occurs.running⟩,fun all => ⟨all.1,all.2.1,all.2.2⟩⟩
  simp only [occurs,within_iff]
  unfold windowEndAt
  dsimp only
  rw [zonedParts_const fixed,parts,shiftDay_const fixed here,shiftDay_const fixed here,
    closes _ _ (by omega) (by omega),closes' _ _ (by omega) (by omega),whole]
  unfold ends
  by_cases sameDay : w.fromMin < w.toMin
  · simp only [if_pos sameDay]
    constructor
    · intro found
      split at found
      next inside =>
        exact ⟨_,⟨today.mp inside.2.2,rfl,inside.1,inside.2.1⟩,(Option.some.inj found).symm⟩
      · cases found
    · rintro ⟨day,⟨allowed,rfl,begun,running⟩,rfl⟩
      rw [if_pos ⟨begun,running,today.mpr allowed⟩]
  · simp only [if_neg sameDay]
    constructor
    · intro found
      split at found
      next tonight =>
        exact ⟨_,⟨today.mp tonight.2,.inl ⟨rfl,tonight.1⟩⟩,(Option.some.inj found).symm⟩
      next =>
      split at found
      next lastNight =>
        refine ⟨_,⟨yesterday.mp lastNight.2,.inr ⟨by omega,lastNight.1⟩⟩,?_⟩
        rw [neg_add_cancel_right]
        exact (Option.some.inj found).symm
      · cases found
    · rintro ⟨day,⟨allowed,⟨rfl,begun⟩ | ⟨next,running⟩⟩,rfl⟩
      · rw [if_pos ⟨begun,today.mpr allowed⟩]
      · obtain rfl : day = localDay c now + -1 := by omega
        rw [if_neg (fun tonight => by omega),if_pos ⟨running,yesterday.mpr allowed⟩,neg_add_cancel_right]

/-- At its end an occurrence is over, and no other of the window has begun. -/
private theorem windowEndAt_end (fixed : ∀ ms, zones w.tz ms = c) (day : Int) : windowEndAt zones w (ends w c day) = none := by
  have begin' := w.from_range
  have finish := w.to_range
  have differ := w.differ
  have minute : localMinute c (ends w c day) = w.toMin := localMinute_instant c _ finish.1 finish.2
  have parts : (partsOf (localDay c (ends w c day)) w.toMin).hh * 60 + (partsOf (localDay c (ends w c day)) w.toMin).mi =
      w.toMin := by
    change w.toMin / 60 * 60 + w.toMin % 60 = _
    omega
  unfold windowEndAt
  dsimp only
  rw [zonedParts_const fixed,minute,parts]
  split
  · exact if_neg fun inside => absurd inside.2.1 (lt_irrefl _)
  next overnight =>
    rw [if_neg (fun tonight => by omega),if_neg (fun lastNight => absurd lastNight.1 (lt_irrefl _))]

/-- In a zone of one offset the end is the close of the occurrence that contains the instant, the same at every instant
until then, and there is none where no occurrence contains it. -/
theorem window_occurrences (fixed : ∀ ms, zones w.tz ms = c) (dated : Dated c (localDay c now) 3) :
    (∀ e, windowEndAt zones w now = some e ↔ ∃ day, Occurs w c day now ∧ e = ends w c day) ∧
    (windowEndAt zones w now = none ↔ ∀ day, ¬Occurs w c day now) ∧
    ∀ e, windowEndAt zones w now = some e →
      (∀ t, now ≤ t → t < e → windowEndAt zones w t = some e) ∧ windowEndAt zones w e = none := by
  have here : ∀ e, windowEndAt zones w now = some e ↔ ∃ day, Occurs w c day now ∧ e = ends w c day :=
    windowEndAt_occurs fixed (dated_near dated (by rw [sub_self]; decide))
  refine ⟨here,?_,?_⟩
  · rw [Option.eq_none_iff_forall_ne_some]
    constructor
    · intro none day occurs
      exact none _ ((here _).mpr ⟨day,occurs,rfl⟩)
    · intro none e found
      obtain ⟨day,occurs,_⟩ := (here e).mp found
      exact none day occurs
  · intro e found
    obtain ⟨day,occurs,rfl⟩ := (here e).mp found
    refine ⟨?_,windowEndAt_end fixed day⟩
    intro t after before
    have near : |localDay c t - localDay c now| + 2 ≤ 3 := by
      have range := w.from_range
      have range' := w.to_range
      have begun := occurs.begun
      have moved : localDay c t - localDay c now = 0 ∨ localDay c t - localDay c now = 1 := by
        unfold starts ends instantOf at *
        unfold localDay
        split at before <;> omega
      rcases moved with same | next'
      · rw [same]
        decide
      · rw [next']
        decide
    exact (windowEndAt_occurs fixed (dated_near dated near) _).mpr
      ⟨day,⟨occurs.allowed,occurs.begun.trans after,before⟩,rfl⟩

/-- The days of our time are dated, whatever the offset of a day or less. -/
theorem dated_present (low : -600000 ≤ day) (high : day ≤ 2900000) (offset : |c| ≤ 1440) : Dated c day 3 := by
  intro other near
  obtain ⟨below,above⟩ := abs_le.mp near
  unfold Clock.civil
  dsimp only
  split <;> omega

def weekend : Window :=
  ⟨"acme/web",1320,360,"Europe/Berlin",some ["fri"],none,some "2026-07-03",by decide,by decide,by decide⟩

/-- Friday night's window, at three on Saturday morning. -/
theorem weekend_occurrences : windowEndAt (fun _ _ => 120) weekend 1783126800000 = some 1783137600000 ∧
    (∀ t, 1783126800000 ≤ t → t < 1783137600000 → windowEndAt (fun _ _ => 120) weekend t = some 1783137600000) ∧
    windowEndAt (fun _ _ => 120) weekend 1783137600000 = none := by
  have all := @window_occurrences (fun _ _ => 120) weekend 120 1783126800000 (fun _ => rfl)
    (dated_present (by decide) (by decide) (by decide))
  have found : windowEndAt (fun _ _ => 120) weekend 1783126800000 = some 1783137600000 := by decide +kernel
  exact ⟨found,all.2.2 _ found⟩

/-- On the first of January of the year 50, the end is one in the year 1950. -/
theorem early_year : ¬ ∀ (zones : String → Zone) (w : Window) (c now e : Int), (∀ ms, zones w.tz ms = c) →
    windowEndAt zones w now = some e → ∃ day, Occurs w c day now ∧ e = ends w c day := by
  intro claim
  have found : windowEndAt (fun _ _ => 0) nightly (-60589292400000) = some (-631146600000) := by decide +kernel
  obtain ⟨day,occurs,same⟩ := claim (fun _ _ => 0) nightly 0 _ _ (fun _ => rfl) found
  have begun := occurs.begun
  change day * 86400000 + (30 - 0) * 60000 ≤ _ at begun
  change _ = day * 86400000 + (90 - 0) * 60000 at same
  omega

end PiDispatch.PauseWindows
