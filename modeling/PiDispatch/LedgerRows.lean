import PiDispatch.ChildLedger
import PiDispatch.UsageMeterLaws

/-! The rows of a ledger: they sum to what the meter has recorded, each has its own key, there are never more than the
child may write, and a row once written keeps its name and only grows. -/
namespace PiDispatch.UsageMeter

def LedgerRow.Recordable (row : LedgerRow) : Prop :=
  (row.provider = none ∧ row.model = none) ∨ ∃ provider model, row.provider = some provider ∧ row.model = some model ∧
    recordableId provider = true ∧ recordableId model = true

/-- A row of a later ledger, under the same name. -/
def LedgerRow.Later (row now : LedgerRow) : Prop :=
  now.provider = row.provider ∧ now.model = row.model ∧ row.row.Within now.row

def LedgerRow.of (named : NamedRow) : LedgerRow := ⟨some named.provider,some named.model,named.row⟩

theorem LedgerRow.Later.key {row now : LedgerRow} (later : row.Later now) : now.key = row.key := by
  unfold LedgerRow.key
  rw [later.1,later.2.1]

theorem sumRows_folded (rows : List LedgerRow) : sumRows rows = folded emptyRow (rows.map LedgerRow.row) := by
  unfold sumRows folded
  rw [List.foldl_map]

theorem sumRows_append (first second : List LedgerRow) :
    sumRows (first ++ second) = foldRow (sumRows first) (sumRows second) := by
  rw [sumRows_folded,sumRows_folded,sumRows_folded,List.map_append,folded_append,folded_into]

private theorem keepRow_cases (kept : List LedgerRow) (bucket : Row) (named : NamedRow) :
    (keepRow (kept,bucket) named = (kept ++ [.of named],bucket) ∧ recordableId named.provider = true ∧
      recordableId named.model = true ∧ kept.length < CHILD_LEDGER_ROWS - 1) ∨
    keepRow (kept,bucket) named = (kept,foldRow bucket named.row) := by
  unfold keepRow
  dsimp only
  split
  next fits => exact .inl ⟨rfl,fits⟩
  next => exact .inr rfl

private theorem keep_sum (rows : List NamedRow) (kept : List LedgerRow) (bucket : Row) :
    foldRow (sumRows (rows.foldl keepRow (kept,bucket)).1) (rows.foldl keepRow (kept,bucket)).2 =
      folded (foldRow (sumRows kept) bucket) (rows.map NamedRow.row) := by
  induction rows generalizing kept bucket with
  | nil => rfl
  | cons named rows ih =>
    rw [List.foldl_cons,List.map_cons]
    rcases keepRow_cases kept bucket named with ⟨same,-⟩ | same
    · have moved : foldRow (sumRows (kept ++ [.of named])) bucket = foldRow (foldRow (sumRows kept) bucket) named.row := by
        rw [sumRows_append,foldRow_assoc,foldRow_assoc,foldRow_comm _ bucket]
        congr 2
        exact empty_foldRow named.row
      rw [same,ih,moved]
      rfl
    · rw [same,ih,← foldRow_assoc]
      rfl

private theorem keep_more (rows : List NamedRow) (kept : List LedgerRow) (bucket : Row) :
    ∃ more : List NamedRow, (rows.foldl keepRow (kept,bucket)).1 = kept ++ more.map .of ∧ more.Sublist rows ∧
      ∀ named ∈ more, recordableId named.provider = true ∧ recordableId named.model = true := by
  induction rows generalizing kept bucket with
  | nil => exact ⟨[],by simp,List.nil_sublist _,nofun⟩
  | cons named rows ih =>
    rw [List.foldl_cons]
    rcases keepRow_cases kept bucket named with ⟨same,provider,model,_⟩ | same
    · obtain ⟨more,shape,sublist,ids⟩ := ih (kept ++ [.of named]) bucket
      refine ⟨named :: more,?_,sublist.cons_cons named,List.forall_mem_cons.mpr ⟨⟨provider,model⟩,ids⟩⟩
      rw [same,shape]
      simp
    · obtain ⟨more,shape,sublist,ids⟩ := ih kept (foldRow bucket named.row)
      exact ⟨more,by rw [same,shape],sublist.cons named,ids⟩

private theorem keep_few (rows : List NamedRow) (kept : List LedgerRow) (bucket : Row)
    (few : kept.length ≤ CHILD_LEDGER_ROWS - 1) :
    (rows.foldl keepRow (kept,bucket)).1.length ≤ CHILD_LEDGER_ROWS - 1 := by
  induction rows generalizing kept bucket with
  | nil => exact few
  | cons named rows ih =>
    rw [List.foldl_cons]
    rcases keepRow_cases kept bucket named with ⟨same,_,_,more⟩ | same
    · rw [same]
      refine ih _ _ ?_
      rw [List.length_append]
      exact more
    · rw [same]
      exact ih _ _ few

private theorem keep_bucket (rows : List NamedRow) (kept : List LedgerRow) (bucket : Row) (positive : bucket.Positive)
    (idle : bucket.calls = 0 → bucket = emptyRow) (each : ∀ named ∈ rows, named.row.Positive ∧ 0 < named.row.calls) :
    let after := (rows.foldl keepRow (kept,bucket)).2
    after.Positive ∧ bucket.Within after ∧ (after.calls = 0 → after = emptyRow) := by
  induction rows generalizing kept bucket with
  | nil => exact ⟨positive,.rfl bucket,idle⟩
  | cons named rows ih =>
    obtain ⟨own,counted⟩ := each named List.mem_cons_self
    have others : ∀ named ∈ rows, named.row.Positive ∧ 0 < named.row.calls :=
      fun named inside => each named (List.mem_cons_of_mem _ inside)
    rw [List.foldl_cons]
    rcases keepRow_cases kept bucket named with ⟨same,_⟩ | same
    · rw [same]
      exact ih _ _ positive idle others
    · rw [same]
      obtain ⟨later,grown,empty⟩ := ih kept (foldRow bucket named.row) (positive.fold own) (fun none => by
        change bucket.calls + named.row.calls = 0 at none
        omega) others
      exact ⟨later,(foldRow_grows bucket own).trans grown,empty⟩

namespace Meter

def kept (meter : Meter) : List LedgerRow := ((meter.byModel.map Prod.snd).foldl keepRow ([],meter.other)).1

def bucket (meter : Meter) : Row := ((meter.byModel.map Prod.snd).foldl keepRow ([],meter.other)).2

theorem rows_eq (meter : Meter) :
    meter.rows = meter.kept ++ if 0 < meter.bucket.calls then [⟨none,none,meter.bucket⟩] else [] := by
  unfold rows kept bucket
  dsimp only
  split
  · rfl
  · rw [List.append_nil]

variable {meter : Meter}

private theorem Whole.bucket (whole : meter.Whole) :
    meter.bucket.Positive ∧ meter.other.Within meter.bucket ∧ (meter.bucket.calls = 0 → meter.bucket = emptyRow) := by
  refine keep_bucket _ [] meter.other whole.other whole.idle ?_
  intro named inside
  obtain ⟨entry,member,rfl⟩ := List.mem_map.mp inside
  exact (whole.named entry member).2

/-- The rows sum to what the meter has recorded. -/
theorem Whole.sum (whole : meter.Whole) : sumRows meter.rows = meter.recorded := by
  have kept := keep_sum (meter.byModel.map Prod.snd) [] meter.other
  have start : foldRow (sumRows []) meter.other = meter.other := empty_foldRow _
  rw [start,List.map_map] at kept
  change foldRow (sumRows meter.kept) meter.bucket = meter.recorded at kept
  rw [rows_eq,sumRows_append,← kept]
  congr 1
  split
  next => exact empty_foldRow _
  next none => exact (whole.bucket.2.2 (by omega)).symm

private theorem kept_entries (whole : meter.Whole) : ∃ more : List NamedRow, meter.kept = more.map .of ∧
    more.Sublist (meter.byModel.map Prod.snd) ∧ (∀ named ∈ more, recordableId named.provider = true ∧ recordableId named.model = true) ∧
    ∀ named ∈ more, named.row.Positive := by
  obtain ⟨more,shape,sublist,ids⟩ := keep_more (meter.byModel.map Prod.snd) [] meter.other
  refine ⟨more,by simpa [kept] using shape,sublist,ids,?_⟩
  intro named inside
  obtain ⟨entry,member,rfl⟩ := List.mem_map.mp (sublist.subset inside)
  exact (whole.named entry member).2.1

theorem Whole.recordable (whole : meter.Whole) : ∀ row ∈ meter.rows, row.Recordable ∧ row.row.Positive := by
  intro row inside
  rw [rows_eq] at inside
  rcases List.mem_append.mp inside with own | last
  · obtain ⟨more,shape,_,ids,positive⟩ := kept_entries whole
    rw [shape] at own
    obtain ⟨named,member,rfl⟩ := List.mem_map.mp own
    exact ⟨.inr ⟨_,_,rfl,rfl,ids named member⟩,positive named member⟩
  · split at last
    · rw [List.mem_singleton.mp last]
      exact ⟨.inl ⟨rfl,rfl⟩,whole.bucket.1⟩
    · cases last

theorem Whole.few (whole : meter.Whole) : meter.rows.length ≤ CHILD_LEDGER_ROWS := by
  have few := keep_few (meter.byModel.map Prod.snd) [] meter.other (Nat.zero_le _)
  change meter.kept.length ≤ CHILD_LEDGER_ROWS - 1 at few
  rw [rows_eq,List.length_append]
  unfold CHILD_LEDGER_ROWS at few ⊢
  split
  · rw [List.length_singleton]
    omega
  · rw [List.length_nil]
    omega

private theorem keyOf_some (provider model : String) : keyOf provider model ≠ "" := by
  intro none
  have length := congrArg String.length none
  unfold keyOf at length
  rw [String.length_append,String.length_append] at length
  have zero : ("\x00" : String).length = 1 := by decide
  have empty : ("" : String).length = 0 := by decide
  omega

private theorem kept_keys (whole : meter.Whole) : (meter.kept.map LedgerRow.key).Nodup ∧ "" ∉ meter.kept.map LedgerRow.key := by
  obtain ⟨more,shape,sublist,_,_⟩ := kept_entries whole
  have same : meter.kept.map LedgerRow.key = more.map fun named => keyOf named.provider named.model := by
    rw [shape,List.map_map]
    rfl
  have keys : meter.byModel.map Prod.fst = (meter.byModel.map Prod.snd).map fun named => keyOf named.provider named.model := by
    rw [List.map_map]
    exact List.map_congr_left fun entry inside => (whole.named entry inside).1
  constructor
  · rw [same]
    have distinct := whole.distinct
    rw [keys] at distinct
    exact distinct.sublist (sublist.map _)
  · rw [same]
    intro inside
    obtain ⟨named,_,empty⟩ := List.mem_map.mp inside
    exact keyOf_some _ _ empty

theorem Whole.keys (whole : meter.Whole) : (meter.rows.map LedgerRow.key).Nodup := by
  obtain ⟨distinct,apart⟩ := kept_keys whole
  rw [rows_eq,List.map_append]
  split
  · refine List.nodup_append.mpr ⟨distinct,by simp,?_⟩
    intro key inside other same
    rw [List.map_singleton,List.mem_singleton] at same
    rintro rfl
    rw [same] at inside
    exact apart inside
  · simpa using distinct

private theorem keep_later {rows later : List NamedRow} (entries : List.Forall₂ (fun named now =>
      now.provider = named.provider ∧ now.model = named.model ∧ named.row.Within now.row) rows later)
    {kept keptLater : List LedgerRow} {bucket bucketLater : Row} (names : List.Forall₂ LedgerRow.Later kept keptLater)
    (within : bucket.Within bucketLater) :
    List.Forall₂ LedgerRow.Later (rows.foldl keepRow (kept,bucket)).1 (later.foldl keepRow (keptLater,bucketLater)).1 ∧
      (rows.foldl keepRow (kept,bucket)).2.Within (later.foldl keepRow (keptLater,bucketLater)).2 := by
  induction entries generalizing kept keptLater bucket bucketLater with
  | nil => exact ⟨names,within⟩
  | cons entry _ ih =>
    obtain ⟨provider,model,row⟩ := entry
    rw [List.foldl_cons,List.foldl_cons]
    unfold keepRow
    dsimp only
    rw [provider,model,names.length_eq]
    split
    · exact ih (List.rel_append names (.cons ⟨rfl,rfl,row⟩ .nil)) within
    · exact ih names (foldRow_within within row)

private theorem forall₂_mem {α β : Type} {related : α → β → Prop} {first : List α} {second : List β}
    (all : List.Forall₂ related first second) {one : α} (inside : one ∈ first) : ∃ other ∈ second, related one other := by
  induction all with
  | nil => cases inside
  | cons head _ ih =>
    rcases List.mem_cons.mp inside with rfl | later
    · exact ⟨_,List.mem_cons_self,head⟩
    · obtain ⟨other,member,own⟩ := ih later
      exact ⟨other,List.mem_cons_of_mem _ member,own⟩

theorem find_key {rows : List LedgerRow} (distinct : (rows.map LedgerRow.key).Nodup) {now : LedgerRow} (inside : now ∈ rows) :
    rows.find? (fun held => held.key = now.key) = some now := by
  induction rows with
  | nil => cases inside
  | cons first rows ih =>
    rw [List.map_cons,List.nodup_cons] at distinct
    rcases List.mem_cons.mp inside with rfl | later
    · exact List.find?_cons_of_pos (decide_eq_true rfl)
    · have apart : first.key ≠ now.key := fun same => distinct.1 (same ▸ List.mem_map_of_mem later)
      rw [List.find?_cons_of_neg (by simpa using apart)]
      exact ih distinct.2 later

/-- A row that was written is found in every later ledger, and has grown. -/
theorem rows_later {next : Meter} (whole : next.Whole) (before : meter.Whole) (grown : meter.Grown next) {row : LedgerRow}
    (inside : row ∈ meter.rows) :
    ∃ now, next.rows.find? (fun held => held.key = row.key) = some now ∧ row.row.Within now.row := by
  obtain ⟨same,fresh,shape,all⟩ := grown.named
  have entries : List.Forall₂ (fun (named now : NamedRow) =>
      now.provider = named.provider ∧ now.model = named.model ∧ named.row.Within now.row)
      (meter.byModel.map Prod.snd) (same.map Prod.snd) := by
    rw [List.forall₂_map_left_iff,List.forall₂_map_right_iff]
    exact all.imp fun _ _ later => later.2
  obtain ⟨names,within⟩ := keep_later entries .nil grown.other
  have unfolded : (next.byModel.map Prod.snd).foldl keepRow ([],next.other) =
      (fresh.map Prod.snd).foldl keepRow ((same.map Prod.snd).foldl keepRow ([],next.other)) := by
    rw [shape,List.map_append,List.foldl_append]
  obtain ⟨more,kept,_⟩ := keep_more (fresh.map Prod.snd) ((same.map Prod.snd).foldl keepRow ([],next.other)).1
    ((same.map Prod.snd).foldl keepRow ([],next.other)).2
  have later : ∃ now ∈ next.rows, row.Later now := by
    rw [rows_eq] at inside ⊢
    rcases List.mem_append.mp inside with own | last
    · obtain ⟨now,member,found⟩ := forall₂_mem names own
      refine ⟨now,List.mem_append_left _ ?_,found⟩
      unfold Meter.kept
      rw [unfolded,kept]
      exact List.mem_append_left _ member
    · split at last
      next counted =>
        rw [List.mem_singleton.mp last]
        have positive : ∀ named ∈ fresh.map Prod.snd, named.row.Positive ∧ 0 < named.row.calls := by
          intro named member
          obtain ⟨entry,held,rfl⟩ := List.mem_map.mp member
          exact (whole.named entry (by rw [shape]; exact List.mem_append_right _ held)).2
        have grows : meter.bucket.Within next.bucket := by
          refine within.trans ?_
          have idle : ((same.map Prod.snd).foldl keepRow ([],next.other)).2.Positive := before.bucket.1.trans within
          have some' : 0 < ((same.map Prod.snd).foldl keepRow ([],next.other)).2.calls :=
            Nat.lt_of_lt_of_le counted within.calls
          unfold Meter.bucket
          rw [unfolded]
          exact (keep_bucket (fresh.map Prod.snd) _ _ idle (fun none => absurd none (by omega)) positive).2.1
        refine ⟨⟨none,none,next.bucket⟩,List.mem_append_right _ ?_,rfl,rfl,grows⟩
        rw [if_pos (Nat.lt_of_lt_of_le counted grows.calls)]
        exact List.mem_singleton.mpr rfl
      · cases last
  obtain ⟨now,member,own⟩ := later
  refine ⟨now,?_,own.2.2⟩
  rw [← own.key]
  exact find_key whole.keys member

end Meter

end PiDispatch.UsageMeter
