import PiDispatch.StderrChunks

/-! What is taken out of a stream, against the grammar of its records: nothing but a marker and what follows it as long as
the grammar admits it. -/
namespace PiDispatch.StderrTranscript

/-- A part of a record's body before its payload, up to a space: its bytes and its lengths. -/
structure Part where
  ok : UInt8 → Bool
  least : Nat
  most : Nat

def PARTS : List Part := [⟨isDigit,1,16⟩,⟨isType,1,1⟩,⟨isDigit,1,16⟩,⟨isHex,64,64⟩]

/-- A body's parts from within the first of them, `len` bytes of which went before. -/
def SpelledFrom : List Part → Nat → Bytes → Prop
  | [],_,body => ∀ c ∈ body, isB64 c = true
  | part :: parts,len,body => ∃ text rest, body = text ++ space :: rest ∧ (∀ c ∈ text, part.ok c = true) ∧
      part.least ≤ len + text.length ∧ len + text.length ≤ part.most ∧ SpelledFrom parts 0 rest

/-- What a record's body begins with. -/
def Admitted (body : Bytes) : Prop := ∃ rest, SpelledFrom PARTS 0 (body ++ rest)

/-- A stream and what is left of it once some records are taken out, each from its marker to its newline, or to the first
byte that the grammar does not admit. Where it is `strict` no marker is left, and where records may be `unended` the
stream's end ends one too. -/
inductive Cleaned (strict unended : Bool) : Bytes → Bytes → Prop
  | nil : Cleaned strict unended [] []
  | keep (c stream kept) (plain : strict = true → ¬MARKER <+: c :: stream) (rest : Cleaned strict unended stream kept) :
      Cleaned strict unended (c :: stream) (c :: kept)
  | ended (body stream kept) (admitted : Admitted body) (rest : Cleaned strict unended stream kept) :
      Cleaned strict unended (MARKER ++ body ++ newline :: stream) kept
  | broken (body c stream kept) (admitted : Admitted body) (stops : ¬Admitted (body ++ [c])) (other : c ≠ newline)
      (rest : Cleaned strict unended (c :: stream) kept) : Cleaned strict unended (MARKER ++ body ++ c :: stream) kept
  | unended (body) (may : unended = true) (admitted : Admitted body) : Cleaned strict unended (MARKER ++ body) []

/-! The grammar read byte by byte. -/

def scan (parts : List Part) (len : Nat) (c : UInt8) : Option (List Part × Nat) :=
  match parts with
  | [] => if isB64 c = true then some ([],len) else none
  | part :: rest =>
    if c = space ∧ part.least ≤ len then some (rest,0)
    else if part.ok c = true ∧ len < part.most then some (part :: rest,len + 1)
    else none

def scanAll (state : List Part × Nat) : Bytes → Option (List Part × Nat)
  | [] => some state
  | c :: rest => (scan state.1 state.2 c).bind fun next => scanAll next rest

theorem scanAll_append (state : List Part × Nat) (first second : Bytes) :
    scanAll state (first ++ second) = (scanAll state first).bind fun next => scanAll next second := by
  induction first generalizing state with
  | nil => rfl
  | cons c first ih =>
    change (scan state.1 state.2 c).bind (fun next => scanAll next (first ++ second)) =
      ((scan state.1 state.2 c).bind fun next => scanAll next first).bind fun next => scanAll next second
    cases scan state.1 state.2 c with
    | none => rfl
    | some next => exact ih next

/-- Parts that end at a space and can be spelled, and a length within the first of them. -/
structure Fits (state : List Part × Nat) : Prop where
  each : ∀ part ∈ state.1, part.ok space = false ∧ part.least ≤ part.most ∧ ∃ c, part.ok c = true
  within : ∀ part ∈ state.1.head?, state.2 ≤ part.most

private theorem scan_fits {state next : List Part × Nat} {c : UInt8} (fits : Fits state) (found : scan state.1 state.2 c = some next) :
    Fits next := by
  obtain ⟨parts,len⟩ := state
  unfold scan at found
  dsimp only at found
  split at found
  · split at found
    · cases found
      exact ⟨nofun,nofun⟩
    · cases found
  next part rest =>
    have each := List.forall_mem_cons.mp fits.each
    split at found
    · cases found
      exact ⟨each.2,fun _ _ => Nat.zero_le _⟩
    · split at found
      next room =>
        cases found
        refine ⟨fits.each,?_⟩
        rintro other same
        cases Option.mem_some.mp same
        exact room.2
      · cases found

private theorem spelled_cons {state : List Part × Nat} (fits : Fits state) (c : UInt8) (body : Bytes) :
    SpelledFrom state.1 state.2 (c :: body) ↔ ∃ next, scan state.1 state.2 c = some next ∧ SpelledFrom next.1 next.2 body := by
  obtain ⟨parts,len⟩ := state
  cases parts with
  | nil =>
    unfold scan SpelledFrom
    dsimp only
    rw [List.forall_mem_cons]
    constructor
    · rintro ⟨own,others⟩
      rw [if_pos own]
      exact ⟨_,rfl,others⟩
    · rintro ⟨next,found,others⟩
      split at found
      next own =>
        cases found
        exact ⟨own,others⟩
      next => cases found
  | cons part rest =>
    obtain ⟨apart,_,_⟩ := fits.each part List.mem_cons_self
    have most := fits.within part rfl
    dsimp only at most
    constructor
    · rintro ⟨text,later,same,all,least,room,spelled⟩
      unfold scan
      dsimp only
      cases text with
      | nil =>
        rw [List.nil_append] at same
        cases same
        rw [if_pos ⟨rfl,least⟩]
        exact ⟨_,rfl,spelled⟩
      | cons first text =>
        rw [List.cons_append] at same
        cases same
        obtain ⟨own,others⟩ := List.forall_mem_cons.mp all
        rw [List.length_cons] at least room
        have other : ¬(c = space ∧ part.least ≤ len) := by
          rintro ⟨rfl,_⟩
          rw [apart] at own
          cases own
        rw [if_neg other,if_pos ⟨own,by omega⟩]
        exact ⟨_,rfl,text,later,rfl,others,by dsimp only; omega,by dsimp only; omega,spelled⟩
    · rintro ⟨next,found,spelled⟩
      unfold scan at found
      dsimp only at found
      split at found
      next here =>
        cases found
        obtain ⟨rfl,least⟩ := here
        exact ⟨[],body,rfl,nofun,least,most,spelled⟩
      next =>
        split at found
        next own =>
          cases found
          obtain ⟨text,later,rfl,all,least,room,spelled⟩ := spelled
          dsimp only at least room
          refine ⟨c :: text,later,rfl,List.forall_mem_cons.mpr ⟨own.1,all⟩,?_,?_,spelled⟩
          · rw [List.length_cons]
            omega
          · rw [List.length_cons]
            omega
        next => cases found

private theorem spelled_some {parts : List Part} : ∀ {len : Nat}, Fits (parts,len) → ∃ rest, SpelledFrom parts len rest := by
  induction parts with
  | nil => exact fun _ => ⟨[],nofun⟩
  | cons part rest ih =>
    intro len fits
    obtain ⟨⟨_,least,c,own⟩,others⟩ := List.forall_mem_cons.mp fits.each
    have most := fits.within part rfl
    dsimp only at most
    obtain ⟨later,spelled⟩ := @ih 0 ⟨others,fun _ _ => Nat.zero_le _⟩
    refine ⟨List.replicate (part.least - len) c ++ space :: later,_,later,rfl,?_,?_,?_,spelled⟩
    · intro other inside
      rw [List.eq_of_mem_replicate inside]
      exact own
    · rw [List.length_replicate]
      omega
    · rw [List.length_replicate]
      omega

private theorem spelled_iff (body : Bytes) : ∀ {state : List Part × Nat}, Fits state →
    ((∃ rest, SpelledFrom state.1 state.2 (body ++ rest)) ↔ (scanAll state body).isSome) := by
  induction body with
  | nil =>
    intro state fits
    exact ⟨fun _ => rfl,fun _ => spelled_some fits⟩
  | cons c body ih =>
    intro state fits
    unfold scanAll
    constructor
    · rintro ⟨rest,spelled⟩
      obtain ⟨next,found,later⟩ := (spelled_cons fits c _).mp spelled
      rw [found]
      exact (ih (scan_fits fits found)).mp ⟨rest,later⟩
    · intro scanned
      cases found : scan state.1 state.2 c with
      | none =>
        rw [found] at scanned
        cases scanned
      | some next =>
        rw [found] at scanned
        obtain ⟨rest,later⟩ := (ih (scan_fits fits found)).mpr scanned
        exact ⟨rest,(spelled_cons fits c _).mpr ⟨next,found,later⟩⟩

private theorem parts_fit : Fits (PARTS,0) := by
  constructor
  · unfold PARTS
    simp only [List.forall_mem_cons]
    exact ⟨⟨by decide,by decide,0x30,by decide⟩,⟨by decide,by decide,0x62,by decide⟩,⟨by decide,by decide,0x30,by decide⟩,
      ⟨by decide,by decide,0x30,by decide⟩,nofun⟩
  · exact fun _ _ => Nat.zero_le _

/-- The grammar admits a body where every byte of it can be read. -/
theorem admitted_iff (body : Bytes) : Admitted body ↔ (scanAll (PARTS,0) body).isSome := spelled_iff body parts_fit

/-! The demux reads the grammar. -/

/-- A body that leaves a demux within one of the fields, or in the payload. -/
structure Scanned (body : Bytes) (field fieldLen : Nat) : Prop where
  short : field ≤ 4
  read : scanAll (PARTS,0) body = some (PARTS.drop field,fieldLen)
  within : ∀ part ∈ PARTS[field]?, fieldLen ≤ part.most

private theorem Scanned.admitted {body : Bytes} {field fieldLen : Nat} (scanned : Scanned body field fieldLen) : Admitted body := by
  rw [admitted_iff,scanned.read]
  rfl

private theorem scanned_next {body : Bytes} {field fieldLen : Nat} (scanned : Scanned body field fieldLen) (c : UInt8) :
    scanAll (PARTS,0) (body ++ [c]) = scan (PARTS.drop field) fieldLen c := by
  rw [scanAll_append,scanned.read]
  change (scan (PARTS.drop field) fieldLen c).bind some = _
  cases scan (PARTS.drop field) fieldLen c with
  | none => rfl
  | some next => rfl

/-- The fields are the parts of the grammar. -/
private theorem field_part {field : Nat} {spec : Field} (found : FIELDS[field]? = some spec) :
    ∃ part, PARTS[field]? = some part ∧ PARTS.drop field = part :: PARTS.drop (field + 1) ∧ part.ok = spec.ok ∧
      part.most = spec.max ∧ field < 4 ∧ ∀ len ≤ part.most, part.least ≤ len ↔ len > 0 ∧ (field ≠ 3 ∨ len = 64) := by
  match field,found with
  | 0,found | 1,found | 2,found | 3,found =>
    cases found
    refine ⟨_,rfl,rfl,rfl,rfl,by omega,?_⟩
    intro len most
    dsimp only at most ⊢
    omega
  | field + 4,found => cases found

private theorem field_none {field : Nat} (short : field ≤ 4) (found : FIELDS[field]? = none) : field = 4 := by
  match field,found with
  | 0,found | 1,found | 2,found | 3,found => cases found
  | 4,_ => rfl
  | field + 5,_ => omega

namespace Demux

/-- What a demux holds back of its stream: the head of a marker, or a record so far. -/
def Holds (demux : Demux) (held : Bytes) : Prop :=
  match demux.mode with
  | .start probe => held = probe.bytes
  | .pass => held = []
  | .record field fieldLen _ _ _ => ∃ body, held = MARKER ++ body ∧ Scanned body field fieldLen

private theorem marker_head {stream : Bytes} {c : UInt8} (head : MARKER <+: c :: stream) : c = RS := by
  obtain ⟨rest,same⟩ := head
  injection same with same _
  exact same.symm

private theorem keep_head {unended : Bool} (bytes stream kept : Bytes) (plain : ∀ c ∈ bytes, c ≠ RS)
    (cleaned : Cleaned true unended stream kept) : Cleaned true unended (bytes ++ stream) (bytes ++ kept) := by
  induction bytes with
  | nil => exact cleaned
  | cons c bytes ih =>
    obtain ⟨own,others⟩ := List.forall_mem_cons.mp plain
    exact .keep _ _ _ (fun _ head => own (marker_head head)) (ih others)

private theorem keep_probe {unended : Bool} (probe : Probe) (stream kept : Bytes)
    (miss : ¬MARKER <+: probe.bytes ++ stream) (cleaned : Cleaned true unended stream kept) :
    Cleaned true unended (probe.bytes ++ stream) (probe.bytes ++ kept) := by
  cases bytes : probe.bytes with
  | nil => exact cleaned
  | cons first others =>
    rw [bytes] at miss
    have inside : ∀ c ∈ others, c ≠ RS := by
      intro c there
      have head := probe.head
      rw [bytes] at head
      obtain ⟨rest,same⟩ := head
      unfold MARKER at same
      injection same with _ same
      have here : c ∈ ([0x70,0x69,0x64,0x74,0x20] : Bytes) := by
        rw [← same]
        exact List.mem_append_left _ there
      have every : ∀ other ∈ ([0x70,0x69,0x64,0x74,0x20] : Bytes), other ≠ RS := by decide +kernel
      exact every c here
    exact .keep _ _ _ (fun _ => miss) (keep_head others stream kept inside cleaned)

variable (mac : Mac) (maxRecordBytes : Nat)

private theorem whole_cons (demux : Demux) (c : UInt8) (rest : Bytes) : (demux.whole mac maxRecordBytes (c :: rest)).2 =
    (demux.feed mac maxRecordBytes c).2 ++ ((demux.feed mac maxRecordBytes c).1.whole mac maxRecordBytes rest).2 := by
  unfold whole
  rw [feedAll]
  exact List.append_assoc _ _ _

section Step
variable {rest : Bytes} (later : ∀ (demux : Demux) (held : Bytes), demux.Holds held →
  Cleaned true true (held ++ rest) (demux.whole mac maxRecordBytes rest).2)
include later

private theorem pass_cleaned (demux : Demux) (c : UInt8) : Cleaned true true (c :: rest)
    ((demux.passByte c).2 ++ ((demux.passByte c).1.whole mac maxRecordBytes rest).2) := by
  unfold passByte
  split
  next marker =>
    subst marker
    exact later _ [RS] rfl
  next other =>
    have plain : true = true → ¬MARKER <+: c :: rest := fun _ head => other (marker_head head)
    split
    · exact .keep _ _ _ plain (later _ [] rfl)
    · exact .keep _ _ _ plain (later _ [] rfl)

private theorem start_cleaned (demux : Demux) {probe : Probe} (mode : demux.mode = .start probe) (c : UInt8) :
    Cleaned true true (probe.bytes ++ c :: rest) (demux.whole mac maxRecordBytes (c :: rest)).2 := by
  have one : probe.bytes ++ c :: rest = probe.bytes ++ [c] ++ rest := by
    rw [List.append_assoc]
    rfl
  rw [whole_cons]
  unfold feed
  rw [mode]
  dsimp only
  split
  next head =>
    split
    next short =>
      rw [one]
      exact later _ _ rfl
    next full =>
      have marker : probe.bytes ++ [c] = MARKER := head.eq_of_length (by have most := head.length_le; omega)
      rw [one,marker]
      refine later _ _ ⟨[],(List.append_nil _).symm,⟨Nat.zero_le _,rfl,fun _ _ => Nat.zero_le _⟩⟩
  next miss =>
    dsimp only
    rw [List.append_assoc]
    refine keep_probe probe _ _ ?_ (pass_cleaned mac maxRecordBytes later demux c)
    intro head
    rw [one] at head
    refine miss (List.prefix_of_prefix_length_le (List.prefix_append _ rest) head ?_)
    have short := probe.short
    rw [List.length_append,List.length_singleton]
    omega

private theorem record_cleaned (demux : Demux) {field fieldLen : Nat} {parts : Bytes} {held : Nat} {discarding : Bool}
    (mode : demux.mode = .record field fieldLen parts held discarding) {body : Bytes} (scanned : Scanned body field fieldLen)
    (c : UInt8) : Cleaned true true (MARKER ++ body ++ c :: rest) (demux.whole mac maxRecordBytes (c :: rest)).2 := by
  have one : MARKER ++ body ++ c :: rest = MARKER ++ (body ++ [c]) ++ rest := by
    simp only [List.append_assoc,List.singleton_append]
  have next := scanned_next scanned c
  rw [whole_cons]
  unfold feed
  rw [mode]
  dsimp only
  cases found : FIELDS[field]? with
  | some spec =>
    obtain ⟨part,here,dropped,ok,most,short,ends⟩ := field_part found
    have within := scanned.within part here
    rw [dropped] at next
    unfold scan at next
    dsimp only at next ⊢
    simp only [ends fieldLen within,ok,most] at next
    split
    next space' =>
      rw [if_pos space'] at next
      rw [one]
      exact later _ _ ⟨_,rfl,⟨short,next,fun _ _ => Nat.zero_le _⟩⟩
    next other =>
      rw [if_neg other] at next
      split
      next taken =>
        rw [if_pos taken,← dropped] at next
        rw [one]
        refine later _ _ ⟨_,rfl,⟨scanned.short,next,?_⟩⟩
        intro own same
        rw [here] at same
        cases Option.mem_some.mp same
        omega
      next stops =>
        rw [if_neg stops] at next
        have refused : ¬Admitted (body ++ [c]) := by
          rw [admitted_iff,next]
          exact Bool.false_ne_true
        split
        next line =>
          rw [line]
          exact .ended body rest _ scanned.admitted (later _ [] rfl)
        next line => exact .broken body c rest _ scanned.admitted refused line (pass_cleaned mac maxRecordBytes later _ c)
  | none =>
    have last := field_none scanned.short found
    subst last
    change scanAll (PARTS,0) (body ++ [c]) = if isB64 c = true then some ([],fieldLen) else none at next
    dsimp only
    split
    next taken =>
      rw [if_pos taken] at next
      rw [one]
      have scanned' : Scanned (body ++ [c]) 4 fieldLen := ⟨scanned.short,next,scanned.within⟩
      split
      · exact later _ _ ⟨_,rfl,scanned'⟩
      · exact later _ _ ⟨_,rfl,scanned'⟩
    next stops =>
      rw [if_neg stops] at next
      have refused : ¬Admitted (body ++ [c]) := by
        rw [admitted_iff,next]
        exact Bool.false_ne_true
      split
      next line =>
        rw [line]
        split
        · exact .ended body rest _ scanned.admitted (later _ [] rfl)
        · exact .ended body rest _ scanned.admitted (later _ [] rfl)
      next line =>
        split
        · exact .broken body c rest _ scanned.admitted refused line (pass_cleaned mac maxRecordBytes later _ c)
        · exact .broken body c rest _ scanned.admitted refused line (pass_cleaned mac maxRecordBytes later _ c)

end Step

private theorem probe_cleaned (probe : Probe) : Cleaned true true probe.bytes probe.bytes := by
  have miss : ¬MARKER <+: probe.bytes ++ [] := by
    intro head
    have most := head.length_le
    have short := probe.short
    rw [List.append_nil] at most
    omega
  have cleaned := @keep_probe true probe [] [] miss .nil
  rw [List.append_nil] at cleaned
  exact cleaned

/-- What a demux passes on of the rest of its stream, with what it holds back. -/
theorem held_cleaned (rest : Bytes) : ∀ (demux : Demux) (held : Bytes), demux.Holds held →
    Cleaned true true (held ++ rest) (demux.whole mac maxRecordBytes rest).2 := by
  induction rest with
  | nil =>
    intro demux held holds
    have passed : (demux.whole mac maxRecordBytes []).2 = demux.finish.2 := List.nil_append _
    rw [List.append_nil,passed]
    unfold Holds at holds
    unfold finish
    cases mode : demux.mode with
    | start probe =>
      rw [mode] at holds
      rw [show held = probe.bytes from holds]
      exact probe_cleaned probe
    | pass =>
      rw [mode] at holds
      rw [show held = [] from holds]
      exact .nil
    | record field fieldLen parts size discarding =>
      rw [mode] at holds
      obtain ⟨body,rfl,scanned⟩ := holds
      dsimp only
      split
      · exact .unended body rfl scanned.admitted
      · exact .unended body rfl scanned.admitted
  | cons c rest ih =>
    intro demux held holds
    unfold Holds at holds
    split at holds
    next probe mode =>
      rw [holds]
      exact start_cleaned mac maxRecordBytes ih demux mode c
    next mode =>
      rw [holds,List.nil_append,whole_cons]
      have fed : demux.feed mac maxRecordBytes c = demux.passByte c := by
        unfold feed
        rw [mode]
      rw [fed]
      exact pass_cleaned mac maxRecordBytes ih demux c
    next field fieldLen parts size discarding mode =>
      obtain ⟨body,rfl,scanned⟩ := holds
      exact record_cleaned mac maxRecordBytes ih demux mode scanned c

/-! The numbers of the accepted records. -/

structure Ordered (demux : Demux) : Prop where
  rising : demux.taken.Pairwise (· < ·)
  last : ∀ seq ∈ demux.taken, seq ≤ demux.last

private theorem settle_ordered {demux : Demux} (ordered : demux.Ordered) (body : Bytes) : (demux.settle mac body).Ordered := by
  unfold settle
  split
  · exact ⟨ordered.rising,ordered.last⟩
  · split
    · exact ⟨ordered.rising,ordered.last⟩
    next verified _ above =>
      constructor
      · refine List.pairwise_append.mpr ⟨ordered.rising,List.pairwise_singleton _ _,?_⟩
        intro seq inside other same
        rw [List.mem_singleton.mp same]
        have most := ordered.last seq inside
        omega
      · intro seq inside
        dsimp only
        rcases List.mem_append.mp inside with old | own
        · have most := ordered.last seq old
          omega
        · exact (List.mem_singleton.mp own).le

private theorem mode_ordered {demux : Demux} (ordered : demux.Ordered) (mode : Mode) (counts : Counts) (told : List Told) :
    Ordered { demux with mode := mode, counts := counts, told := told } := ⟨ordered.rising,ordered.last⟩

private theorem pass_ordered {demux : Demux} (ordered : demux.Ordered) (c : UInt8) : (demux.passByte c).1.Ordered := by
  unfold passByte
  split
  · exact mode_ordered ordered _ _ _
  · split
    · exact mode_ordered ordered _ _ _
    · exact mode_ordered ordered _ _ _

private theorem feed_ordered {demux : Demux} (ordered : demux.Ordered) (c : UInt8) :
    (demux.feed mac maxRecordBytes c).1.Ordered := by
  unfold feed
  split
  · exact pass_ordered ordered c
  · split
    · split
      · exact mode_ordered ordered _ _ _
      · exact mode_ordered ordered _ _ _
    · exact pass_ordered ordered c
  next field fieldLen parts held discarding _ =>
    split
    · split
      · exact mode_ordered ordered _ _ _
      · split
        · exact mode_ordered ordered _ _ _
        · split
          · exact mode_ordered ordered _ _ _
          · exact pass_ordered (mode_ordered ordered demux.mode _ demux.told) c
    · split
      · split
        · exact mode_ordered ordered _ _ _
        · exact mode_ordered ordered _ _ _
      · split
        · split
          · exact mode_ordered ordered _ _ _
          · have settled := settle_ordered mac ordered parts
            exact mode_ordered settled _ (demux.settle mac parts).counts (demux.settle mac parts).told
        · split
          · exact pass_ordered (mode_ordered ordered demux.mode _ demux.told) c
          · exact pass_ordered (mode_ordered ordered demux.mode _ demux.told) c

private theorem feedAll_ordered (stream : Bytes) : ∀ {demux : Demux}, demux.Ordered →
    (demux.feedAll mac maxRecordBytes stream).1.Ordered := by
  induction stream with
  | nil => exact fun ordered => ordered
  | cons c stream ih => exact fun ordered => ih (feed_ordered mac maxRecordBytes ordered c)

private theorem finish_taken (demux : Demux) : demux.finish.1.taken = demux.taken := by
  unfold finish
  split
  · rfl
  · rfl
  · dsimp only
    split
    · rfl
    · rfl

end Demux

/-- A stream without a marker is left whole. -/
theorem cleaned_whole {strict unended : Bool} {stream kept : Bytes} (cleaned : Cleaned strict unended stream kept)
    (bare : ¬MARKER <:+: stream) : kept = stream := by
  induction cleaned with
  | nil => rfl
  | keep c stream kept _ _ ih => rw [ih fun inside => bare (inside.trans (List.infix_cons (List.infix_refl _)))]
  | ended body stream kept => exact absurd ⟨[],body ++ newline :: stream,by simp⟩ bare
  | broken body c stream kept => exact absurd ⟨[],body ++ c :: stream,by simp⟩ bare
  | unended body => exact absurd ⟨[],body,by simp⟩ bare

/-- Whatever the stream and its cuts: what is passed on, called and counted is the same for all of them, nothing is taken
out but records as far as the grammar admits them, and the accepted numbers rise. -/
theorem demux_exact (mac : Mac) (maxRecordBytes : Nat) (chunks : List Bytes) :
    (∀ others : List Bytes, others.flatten = chunks.flatten →
      Demux.fresh.demuxed mac maxRecordBytes others = Demux.fresh.demuxed mac maxRecordBytes chunks) ∧
    Cleaned true true chunks.flatten (Demux.fresh.demuxed mac maxRecordBytes chunks).2 ∧
    (¬MARKER <:+: chunks.flatten → (Demux.fresh.demuxed mac maxRecordBytes chunks).2 = chunks.flatten) ∧
    (Demux.fresh.demuxed mac maxRecordBytes chunks).1.taken.Pairwise (· < ·) := by
  have cleaned := Demux.held_cleaned mac maxRecordBytes chunks.flatten Demux.fresh [] rfl
  rw [List.nil_append,← Demux.demuxed_whole] at cleaned
  refine ⟨?_,cleaned,cleaned_whole cleaned,?_⟩
  · intro others same
    rw [Demux.demuxed_whole,Demux.demuxed_whole,same]
  · rw [Demux.demuxed_whole]
    unfold Demux.whole
    dsimp only
    rw [Demux.finish_taken]
    exact (Demux.feedAll_ordered mac maxRecordBytes chunks.flatten ⟨.nil,fun _ none => absurd none List.not_mem_nil⟩).rising

/-- A stream that ends within a record: the record is taken out, and no newline and no other byte ended it. -/
theorem unended_taken : (Demux.fresh.demuxed (fun _ _ _ _ => []) TRANSCRIPT_RECORD_MAX_BYTES [MARKER]).2 = [] ∧
    ¬Cleaned false false MARKER (Demux.fresh.demuxed (fun _ _ _ _ => []) TRANSCRIPT_RECORD_MAX_BYTES [MARKER]).2 := by
  have none : (Demux.fresh.demuxed (fun _ _ _ _ => []) TRANSCRIPT_RECORD_MAX_BYTES [MARKER]).2 = [] := by
    rw [Demux.demuxed_whole]
    decide
  rw [none]
  refine ⟨rfl,?_⟩
  generalize same : MARKER = stream
  generalize bare : ([] : Bytes) = kept
  intro cleaned
  cases cleaned with
  | nil => cases same
  | keep => cases bare
  | ended body rest =>
    have length := congrArg List.length same
    simp only [List.length_append,List.length_cons] at length
    omega
  | broken body c rest =>
    have length := congrArg List.length same
    simp only [List.length_append,List.length_cons] at length
    omega
  | unended body may => cases may

end PiDispatch.StderrTranscript
