import PiDispatch.ConsoleAuditDirectory

/-! What one append, one crash and one run of the reaper make of a directory in which rows stand. -/
namespace PiDispatch.ConsoleAudit
open Kernel JsonText

section Reaping

/-- Whether a file's last write is older than the retention. -/
def isStale (dir : Directory) (retentionDays : Nat) (now : Int) (file : String) : Bool :=
  (dir.get? file).any fun own => own.mtime < now - retentionDays * 86400000

def survives (dir : Directory) (retentionDays : Nat) (now : Int) (file : String) : Bool :=
  retentionDays = 0 || !(decide (file ∈ (monthFiles dir).dropLast) && isStale dir retentionDays now file)

private theorem erased_get? (old : AuditFile → Bool) (names : List String) (dir : Directory) (file : String) :
    Dict.get? (names.foldl (fun dir name => if (dir.get? name).any old then dir.erase name else dir) dir) file =
      if file ∈ names ∧ (dir.get? file).any old = true then none else dir.get? file := by
  induction names generalizing dir with
  | nil => rw [List.foldl_nil,if_neg (fun both => List.not_mem_nil both.1)]
  | cons name names ih =>
    rw [List.foldl_cons,ih]
    by_cases same : file = name
    · subst same
      by_cases gone : (dir.get? file).any old = true
      · rw [if_pos gone,Dict.get?_erase_self,if_neg (by simp),if_pos ⟨List.mem_cons_self,gone⟩]
      · rw [if_neg gone,if_neg (fun both => gone both.2),if_neg (fun both => gone both.2)]
    · have own : Dict.get? (if (dir.get? name).any old = true then dir.erase name else dir) file = dir.get? file := by
        split
        · exact Dict.get?_erase_ne dir (fun equal => same equal.symm)
        · rfl
      rw [own]
      simp only [List.mem_cons,same,false_or]

private theorem erased_keys (old : AuditFile → Bool) (names : List String) (dir : Directory) :
    Dict.keys (names.foldl (fun dir name => if (dir.get? name).any old then dir.erase name else dir) dir) =
      dir.keys.filter fun file => !(decide (file ∈ names) && (dir.get? file).any old) := by
  induction names generalizing dir with
  | nil => simp
  | cons name names ih =>
    rw [List.foldl_cons,ih]
    split
    next gone =>
      rw [Dict.keys_erase,List.filter_filter]
      refine List.filter_congr fun file _ => ?_
      by_cases same : file = name
      · simp [same,gone]
      · rw [Dict.get?_erase_ne dir (fun equal => same equal.symm)]
        simp [same]
    next kept =>
      refine List.filter_congr fun file _ => ?_
      by_cases same : file = name
      · simp [same,kept]
      · simp [same]

variable (dir : Directory) (retentionDays : Nat) (now : Int)

theorem reap_keys : (reapConsoleAudit dir retentionDays now).keys = dir.keys.filter (survives dir retentionDays now) := by
  unfold reapConsoleAudit
  split
  next keeps =>
    refine (List.filter_eq_self.mpr fun file _ => ?_).symm
    unfold survives
    rw [decide_eq_true keeps,Bool.true_or]
  next reaps =>
    rw [erased_keys]
    refine List.filter_congr fun file _ => ?_
    unfold survives isStale
    rw [decide_eq_false reaps,Bool.false_or]

theorem reap_content {file : String} (kept : survives dir retentionDays now file = true) :
    contentOf (reapConsoleAudit dir retentionDays now) file = contentOf dir file := by
  unfold reapConsoleAudit
  split
  · rfl
  next reaps =>
    unfold survives isStale at kept
    rw [decide_eq_false reaps,Bool.false_or,Bool.not_eq_true',Bool.and_eq_false_iff] at kept
    unfold contentOf
    rw [erased_get?,if_neg]
    rintro ⟨inside,old⟩
    rcases kept with outside | fresh
    · exact of_decide_eq_false outside inside
    · rw [old] at fresh
      cases fresh

theorem reap_months :
    monthFiles (reapConsoleAudit dir retentionDays now) = (monthFiles dir).filter (survives dir retentionDays now) := by
  unfold monthFiles
  rw [reap_keys,← sortTexts_filter,List.filter_filter,List.filter_filter]
  congr 1
  exact List.filter_congr fun file _ => Bool.and_comm _ _

end Reaping

section Steps
variable {arithmetic : Arithmetic} {sha256 : Text → Text} {dir : Directory} {rows : List (String × Text)}
  {torn : Option (String × List UInt8)}

/-- A month file that is not there yet is as good as empty. -/
theorem Stands.content_month (stands : Stands arithmetic sha256 dir rows torn) {file : String} (month : isMonthFile file = true) :
    contentOf dir file = linesBytes (rowsOf rows file) ++ leftIn torn file := by
  by_cases present : file ∈ dir.keys
  · exact stands.content file (monthFiles_mem.mpr ⟨month,present⟩)
  · have absent : file ∉ monthFiles dir := fun inside => present (monthFiles_mem.mp inside).2
    have nothing : contentOf dir file = [] := by
      unfold contentOf
      rw [(dir.get?_eq_none_iff file).mpr present]
      rfl
    have left : leftIn torn file = [] := by
      cases held : torn with
      | none => rfl
      | some own =>
        rw [leftIn,if_neg]
        rintro rfl
        exact absent (stands.torn own.1 own.2 held).2.1
    rw [nothing,left,rowsOf_none]
    · rfl
    · rintro row inside rfl
      exact absent (stands.placed row inside)

/-- Files of other names do not matter. -/
theorem Stands.aside (stands : Stands arithmetic sha256 dir rows torn) {file : String} (other : isMonthFile file = false)
    (own : AuditFile) : Stands arithmetic sha256 (dir.set file own) rows torn := by
  have same : ∀ name, name ∈ monthFiles (dir.set file own) ↔ name ∈ monthFiles dir := by
    intro name
    rw [monthFiles_set,other]
    simp
  refine ⟨stands.fits,fun row inside => (same _).mpr (stands.placed row inside),stands.ordered,?_,?_,stands.chained⟩
  · intro name inside
    have month := (same name).mp inside
    rw [contentOf_set,if_neg]
    · exact stands.content name month
    · rintro rfl
      rw [(monthFiles_mem.mp month).1] at other
      cases other
  · intro name bytes held
    obtain ⟨fragment,inside,behind⟩ := stands.torn name bytes held
    exact ⟨fragment,(same name).mpr inside,behind⟩

/-- A file that is created and left empty changes nothing. -/
theorem Stands.begun (stands : Stands arithmetic sha256 dir rows torn) {file : String} (absent : file ∉ dir.keys) (now : Int) :
    Stands arithmetic sha256 (dir.set file ⟨[],now⟩) rows torn := by
  cases month : isMonthFile file with
  | false => exact stands.aside month _
  | true =>
    have before := stands.content_month month
    have nothing : contentOf dir file = [] := by
      unfold contentOf
      rw [(dir.get?_eq_none_iff file).mpr absent]
      rfl
    refine ⟨stands.fits,fun row inside => (monthFiles_set dir file _).mpr (.inl (stands.placed row inside)),stands.ordered,?_,
      ?_,stands.chained⟩
    · intro name inside
      rw [contentOf_set]
      split
      next same =>
        subst same
        rw [← before,nothing]
      next apart =>
        refine stands.content name (((monthFiles_set dir file _).mp inside).resolve_right ?_)
        exact fun both => apart both.1.symm
    · intro name bytes held
      obtain ⟨fragment,inside,behind⟩ := stands.torn name bytes held
      exact ⟨fragment,(monthFiles_set dir file _).mpr (.inl inside),behind⟩

/-- A row more, behind the rows that stand. -/
theorem Stands.appended (stands : Stands arithmetic sha256 dir rows none) {file : String} {line : Text} (now : Int)
    (month : isMonthFile file = true) (fits : Fits arithmetic line)
    (chained : ∃ last : Option (Prior arithmetic), chain sha256 none ((rows ++ [(file,line)]).map Prod.snd) = some last)
    (behind : ∀ row ∈ rows, notAfter row.1 file = true) :
    Stands arithmetic sha256 (appendFile dir file (Octets.utf8 line ++ [Utf8.newline]) now) (rows ++ [(file,line)]) none := by
  have inside : file ∈ monthFiles (appendFile dir file (Octets.utf8 line ++ [Utf8.newline]) now) :=
    (monthFiles_set dir file _).mpr (.inr ⟨rfl,month⟩)
  refine ⟨?_,?_,?_,?_,?_,chained⟩
  · intro row among
    rcases List.mem_append.mp among with before | own
    · exact stands.fits row before
    · rw [List.mem_singleton.mp own]
      exact fits
  · intro row among
    rcases List.mem_append.mp among with before | own
    · exact (monthFiles_set dir file _).mpr (.inl (stands.placed row before))
    · rw [List.mem_singleton.mp own]
      exact inside
  · refine List.pairwise_append.mpr ⟨stands.ordered,List.pairwise_singleton _ _,?_⟩
    intro row before last own
    rw [List.mem_singleton.mp own]
    exact behind row before
  · intro name among
    unfold appendFile
    rw [contentOf_set,rowsOf_append,linesBytes_append]
    split
    next same =>
      subst same
      rw [stands.content_month month,rowsOf_own,linesBytes_single,leftIn,List.append_nil,List.append_nil]
    next apart =>
      rw [@rowsOf_none [(file,line)]]
      · have own := stands.content name (((monthFiles_set dir file _).mp among).resolve_right fun both => apart both.1.symm)
        rw [own,leftIn]
        simp [linesBytes]
      · intro row only
        rw [List.mem_singleton.mp only]
        exact apart
  · intro name bytes held
    cases held

/-- What a crash leaves behind the rows that stand. -/
theorem Stands.torn_off (stands : Stands arithmetic sha256 dir rows none) {file : String} {bytes : List UInt8} (now : Int)
    (month : isMonthFile file = true) (fragment : Fragment arithmetic bytes)
    (behind : ∀ row ∈ rows, notAfter row.1 file = true) :
    Stands arithmetic sha256 (appendFile dir file bytes now) rows (some (file,bytes)) := by
  refine ⟨stands.fits,fun row inside => (monthFiles_set dir file _).mpr (.inl (stands.placed row inside)),stands.ordered,?_,?_,
    stands.chained⟩
  · intro name among
    unfold appendFile
    rw [contentOf_set,leftIn]
    split
    next same =>
      subst same
      rw [stands.content_month month,leftIn,List.append_nil]
    next apart =>
      have own := stands.content name (((monthFiles_set dir file _).mp among).resolve_right fun both => apart both.1.symm)
      rw [own]
      rfl
  · intro name own held
    cases held
    exact ⟨fragment,(monthFiles_set dir file _).mpr (.inr ⟨rfl,month⟩),behind⟩

/-- The clock's year has four digits, where the directory holds no row to take the file's name from. -/
def Dated (dir : Directory) (now : Int) : Prop :=
  (∀ file ∈ monthFiles dir, contentOf dir file = []) →
    0 ≤ (Clock.civil (now / 86400000)).year ∧ (Clock.civil (now / 86400000)).year ≤ 9999

private theorem instant_file {now : Int} {at' : Text} (found : Clock.isoInstant now = some at')
    (year : 0 ≤ (Clock.civil (now / 86400000)).year ∧ (Clock.civil (now / 86400000)).year ≤ 9999) :
    ∃ a b c d e f, (Clock.slice 7 at').toList = [a,b,c,d,'-',e,f] ∧ [a,b,c,d,e,f].all Char.isDigit = true := by
  obtain ⟨a,b,c,d,e,f,rest,shape,digits⟩ := Clock.isoInstant_month found year
  refine ⟨a,b,c,d,e,f,?_,digits⟩
  rw [shape,Clock.slice,String.toList_ofList]
  rfl

private theorem head_row {at' : Text} {number : Nat} {hash : Option Text} {month : Option String} {input : Input}
    {driver : Option (List (Units × Document arithmetic))} (few : number ≤ counted) :
    stringify arithmetic.toNumbers (rowOf arithmetic at' ⟨arithmetic.ofNat number,hash,month⟩ (storedBody input driver)) =
      rowLine at' (oneMore number) hash input driver := by
  unfold rowOf rowLine rowMembers
  rw [arithmetic.next_ofNat number few]

private theorem oneMore_range (number : Nat) : 1 ≤ oneMore number ∧ oneMore number ≤ counted :=
  ⟨Nat.le_min.mpr ⟨Nat.succ_pos number,Nat.succ_pos _⟩,Nat.min_le_right _ _⟩

/-- The row that an append writes: it fits, it follows the rows that stand, and it goes to a file behind theirs. -/
theorem appended_row (digest : ∀ text, isDigest (Utf16.ofText (sha256 text)) = true) (stands : Stands arithmetic sha256 dir rows torn)
    {input : Input} {now : Int} {file : String} {line : Text}
    (found : appended arithmetic sha256 dir input now = .ok (file,line)) :
    torn = none ∧ Fits arithmetic line ∧ (∀ row ∈ rows, notAfter row.1 file = true) ∧
      (∃ last : Option (Prior arithmetic), chain sha256 none ((rows ++ [(file,line)]).map Prod.snd) = some last) ∧
      (Dated dir now ∨ rows ≠ [] → isMonthFile file = true) := by
  unfold appended at found
  split at found
  · cases found
  next body valid =>
    obtain ⟨driver,rfl,checked⟩ := auditRowBody_checked valid
    cases torn with
    | some own =>
      obtain ⟨thrown,stuck⟩ := stands.no_head
      rw [stuck] at found
      cases found
    | none =>
      refine ⟨rfl,?_⟩
      obtain ⟨whole,chained⟩ := stands.chained
      rcases List.eq_nil_or_concat rows with rfl | ⟨before,last,rfl⟩
      · have empty : ∀ file ∈ monthFiles dir, contentOf dir file = [] := by
          intro file inside
          rw [stands.content file inside]
          rfl
        rw [readHead_empty empty] at found
        dsimp only at found
        split at found
        · cases found
        next at' instant =>
          cases found
          rw [head_row (Nat.zero_le _)]
          obtain ⟨positive,few⟩ := oneMore_range 0
          refine ⟨rowLine_fits checked few positive (Clock.isoInstant_length instant) (by simp),by simp,?_,?_⟩
          · rw [List.nil_append,List.map_singleton,chain,
              rowLine_passes checked few (by simp) (.inl ⟨rfl,by decide,rfl⟩)]
            exact ⟨_,rfl⟩
          · rintro (dated | some')
            · obtain ⟨a,b,c,d,e,f,shape,digits⟩ := instant_file instant (dated empty)
              exact isMonthFile_of_digits shape digits
            · exact absurd rfl some'
      · rw [List.concat_eq_append] at stands chained ⊢
        obtain ⟨number,known,numbered,head⟩ := stands.head
        rw [head] at found
        dsimp only at found
        split at found
        · cases found
        next at' instant =>
          rw [head_row known] at found
          obtain ⟨positive,few⟩ := oneMore_range number
          have digests : ∀ hash ∈ some (sha256 last.2), isDigest (Utf16.ofText hash) = true := by
            intro hash own
            cases own
            exact digest last.2
          have month := (monthFiles_mem.mp (stands.placed last (List.mem_append_right _ List.mem_cons_self))).1
          obtain ⟨named,a,b,c,d,e,f,shape,digits⟩ := month_name month
          have chosen : isMonthFile file = true ∧ notAfter last.1 file = true := by
            have file' := congrArg Prod.fst (Except.ok.inj found)
            dsimp only at file'
            rw [← file']
            split
            next later =>
              obtain ⟨_,_,_,_,_,_,shape',digits'⟩ := instant_file instant (later_month shape digits instant later)
              refine ⟨isMonthFile_of_digits shape' digits',?_⟩
              have order := months_order shape digits shape' digits' later
              rwa [named] at order
            · rw [named]
              exact ⟨month,(notAfter_total last.1 last.1).elim id id⟩
          have line' : rowLine at' (oneMore number) (some (sha256 last.2)) input driver = line :=
            congrArg Prod.snd (Except.ok.inj found)
          subst line'
          refine ⟨rowLine_fits checked few positive (Clock.isoInstant_length instant) digests,?_,?_,fun _ => chosen.1⟩
          · intro row inside
            rcases List.mem_append.mp inside with earlier | own
            · exact notAfter_trans ((List.pairwise_append.mp stands.ordered).2.2 row earlier last List.mem_cons_self) chosen.2
            · rw [List.mem_singleton.mp own]
              exact chosen.2
          · have ends := chained
            rw [List.map_append,List.map_singleton] at ends
            obtain ⟨seq,same,rfl⟩ := chain_last ends
            rw [numbered] at same
            cases same
            rw [List.map_append,chain_append,chained,Option.bind_some,List.map_singleton,chain,
              rowLine_passes checked few digests (.inr ⟨number,sha256 last.2,rfl,known,rfl,rfl⟩)]
            exact ⟨_,rfl⟩

/-- Of the files that hold anything, the reaper takes none that comes after one it leaves. -/
def Orderly (dir : Directory) (retentionDays : Nat) (now : Int) : Prop :=
  ∀ older ∈ (monthFiles dir).dropLast, ∀ newer ∈ (monthFiles dir).dropLast, notAfter older newer = true →
    contentOf dir older ≠ [] → contentOf dir newer ≠ [] →
      isStale dir retentionDays now newer = true → isStale dir retentionDays now older = true

/-- What stands before a file that is not the newest is not the newest. -/
private theorem before_last {list : List String} (sorted : list.Pairwise fun earlier later => notAfter earlier later = true)
    {older newer : String} (inside : older ∈ list) (order : notAfter older newer = true) (early : newer ∈ list.dropLast) :
    older ∈ list.dropLast := by
  have some' : list ≠ [] := List.ne_nil_of_mem inside
  have shape := List.dropLast_append_getLast some'
  rw [← shape] at inside sorted
  rcases List.mem_append.mp inside with before | own
  · exact before
  · have last := (List.pairwise_append.mp sorted).2.2 newer early _ List.mem_cons_self
    rw [← List.mem_singleton.mp own] at last
    rw [notAfter_antisymm order last]
    exact early

/-- An orderly reaper leaves the files behind the last one it takes. -/
theorem survives_lasting {retentionDays : Nat} {now : Int} (orderly : Orderly dir retentionDays now) {older newer : String}
    (inside : older ∈ monthFiles dir) (order : notAfter older newer = true) (filled : contentOf dir older ≠ [])
    (filled' : contentOf dir newer ≠ []) (kept : survives dir retentionDays now older = true) :
    survives dir retentionDays now newer = true := by
  unfold survives at kept ⊢
  rw [Bool.or_eq_true,Bool.not_eq_true',Bool.and_eq_false_iff] at kept ⊢
  refine kept.imp_right fun left => ?_
  by_contra taken
  rw [not_or,Bool.not_eq_false,Bool.not_eq_false] at taken
  have early := before_last (monthFiles_sorted dir) inside order (of_decide_eq_true taken.1)
  rcases left with last | fresh
  · exact of_decide_eq_false last early
  · rw [orderly older early newer (of_decide_eq_true taken.1) order filled filled' taken.2] at fresh
    cases fresh

theorem Stands.filled (stands : Stands arithmetic sha256 dir rows torn) {row : String × Text} (inside : row ∈ rows) :
    contentOf dir row.1 ≠ [] := by
  rw [stands.content row.1 (stands.placed row inside)]
  intro nothing
  have among : row.2 ∈ rowsOf rows row.1 := List.mem_map_of_mem (List.mem_filter.mpr ⟨inside,decide_eq_true rfl⟩)
  exact linesBytes_some among (List.append_eq_nil_iff.mp nothing).1

theorem Stands.reaped (stands : Stands arithmetic sha256 dir rows torn) {retentionDays : Nat} {now : Int}
    (orderly : Orderly dir retentionDays now) :
    Stands arithmetic sha256 (reapConsoleAudit dir retentionDays now)
      (rows.filter fun row => survives dir retentionDays now row.1)
      (torn.filter fun own => survives dir retentionDays now own.1) := by
  have lasting : rows.Pairwise fun earlier later =>
      survives dir retentionDays now earlier.1 = true → survives dir retentionDays now later.1 = true := by
    refine stands.ordered.imp_of_mem ?_
    intro earlier later inside inside' order kept
    exact survives_lasting orderly (stands.placed earlier inside) order (stands.filled inside) (stands.filled inside') kept
  refine ⟨fun row inside => stands.fits row (List.mem_filter.mp inside).1,?_,stands.ordered.sublist List.filter_sublist,?_,?_,
    ?_⟩
  · intro row inside
    obtain ⟨among,kept⟩ := List.mem_filter.mp inside
    rw [reap_months]
    exact List.mem_filter.mpr ⟨stands.placed row among,kept⟩
  · intro file inside
    rw [reap_months] at inside
    obtain ⟨among,kept⟩ := List.mem_filter.mp inside
    rw [reap_content _ _ _ kept,stands.content file among]
    congr 1
    · unfold rowsOf
      rw [List.filter_filter]
      congr 2
      refine List.filter_congr fun row _ => ?_
      by_cases own : row.1 = file
      · simp [own,kept]
      · simp [own]
    · cases held : torn with
      | none => rfl
      | some own =>
        rw [leftIn]
        split
        next same =>
          rw [Option.filter_some,if_pos (by rw [same]; exact kept),leftIn,if_pos same]
        next apart =>
          rw [Option.filter_some]
          split
          · rw [leftIn,if_neg apart]
          · rfl
  · intro file bytes held
    obtain ⟨own,kept⟩ := Option.filter_eq_some_iff.mp held
    obtain ⟨fragment,inside,behind⟩ := stands.torn file bytes own
    refine ⟨fragment,?_,fun row among => behind row (List.mem_filter.mp among).1⟩
    rw [reap_months]
    exact List.mem_filter.mpr ⟨inside,kept⟩
  · have split' := filter_split lasting
    obtain ⟨last,chained⟩ := stands.chained
    rw [← split',List.map_append] at chained
    by_cases empty : (rows.filter fun row => survives dir retentionDays now row.1) = []
    · exact ⟨none,by rw [empty]; rfl⟩
    · exact ⟨last,chain_later chained (fun none => empty (List.map_eq_nil_iff.mp none))⟩

end Steps

end PiDispatch.ConsoleAudit
