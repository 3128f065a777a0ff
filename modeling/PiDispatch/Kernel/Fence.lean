import PiDispatch.Kernel.Lines

/-! Runs of one mark, and fences of it: a row of marks longer than every run of what stands between two of them, so that
no line of that closes it. -/
namespace PiDispatch.Kernel.Fence
variable {α : Type} [DecidableEq α]

/-- The lengths of the runs of a mark, with what has already been counted of the first. -/
def runsFrom (mark : α) : Nat → List α → List Nat
  | count,[] => if count = 0 then [] else [count]
  | count,item :: rest =>
    if item = mark then runsFrom mark (count + 1) rest
    else (if count = 0 then [] else [count]) ++ runsFrom mark 0 rest

def longest (mark : α) (items : List α) : Nat := (runsFrom mark 0 items).foldl max 0

/-- A line that closes a fence of some width. -/
def Closes (mark : α) (width : Nat) (line : List α) : Prop := width ≤ line.length ∧ ∀ item ∈ line, item = mark

section Runs
variable {mark : α}

private theorem foldl_max (first : Nat) (list : List Nat) : list.foldl max first = max first (list.foldl max 0) := by
  induction list generalizing first with
  | nil => exact (Nat.max_zero first).symm
  | cons next list ih =>
    rw [List.foldl_cons,List.foldl_cons,ih (max first next),ih (max 0 next)]
    omega

private theorem longest_ended (count : Nat) (list : List Nat) :
    ((if count = 0 then [] else [count]) ++ list).foldl max 0 = max count (list.foldl max 0) := by
  split
  next none' =>
    rw [List.nil_append,none']
    exact (Nat.zero_max _).symm
  · rw [List.singleton_append,List.foldl_cons,foldl_max,Nat.zero_max]

private theorem runsFrom_least (count : Nat) (items : List α) : count ≤ (runsFrom mark count items).foldl max 0 := by
  induction items generalizing count with
  | nil =>
    have own := longest_ended count []
    rw [List.append_nil] at own
    rw [runsFrom,own]
    exact Nat.le_max_left _ _
  | cons item items ih =>
    rw [runsFrom]
    split
    · exact Nat.le_of_succ_le (ih (count + 1))
    · rw [longest_ended]
      exact Nat.le_max_left _ _

private theorem runsFrom_grows {less count : Nat} (below : less ≤ count) (items : List α) :
    (runsFrom mark less items).foldl max 0 ≤ (runsFrom mark count items).foldl max 0 := by
  induction items generalizing less count with
  | nil =>
    have one := longest_ended less []
    have two := longest_ended count []
    rw [List.append_nil] at one two
    rw [runsFrom,runsFrom,one,two]
    omega
  | cons item items ih =>
    rw [runsFrom,runsFrom]
    split
    · exact ih (Nat.succ_le_succ below)
    · rw [longest_ended,longest_ended]
      omega

private theorem longest_cons (item : α) (items : List α) : longest mark items ≤ longest mark (item :: items) := by
  unfold longest
  rw [runsFrom]
  split
  · exact runsFrom_grows (Nat.zero_le _) items
  · exact Nat.le_refl _

private theorem runsFrom_lead (count width : Nat) (rest : List α) :
    count + width ≤ (runsFrom mark count (List.replicate width mark ++ rest)).foldl max 0 := by
  induction width generalizing count with
  | zero => exact runsFrom_least count rest
  | succ width ih =>
    have more := ih (count + 1)
    rw [List.replicate_succ,List.cons_append,runsFrom,if_pos rfl]
    omega

/-- No run of the mark is longer than the longest. -/
theorem run_le {width : Nat} {items : List α} (inside : List.replicate width mark <:+: items) : width ≤ longest mark items := by
  obtain ⟨before,after,rfl⟩ := inside
  rw [List.append_assoc]
  induction before with
  | nil =>
    have lead := @runsFrom_lead α _ mark 0 width after
    rw [Nat.zero_add] at lead
    exact lead
  | cons item before ih => exact Nat.le_trans ih (longest_cons item _)

/-- A line among others that is longer than their longest run does not close. -/
theorem open_line {separator : α} {width : Nat} {items line : List α} (wide : longest mark items < width)
    (among : line ∈ Lines.split separator items) : ¬Closes mark width line := by
  rintro ⟨long,marks⟩
  have run := List.eq_replicate_of_mem marks
  have inside := Lines.split_infix among
  rw [run] at inside
  have short := run_le inside
  omega

end Runs

end PiDispatch.Kernel.Fence
