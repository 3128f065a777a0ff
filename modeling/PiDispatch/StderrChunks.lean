import PiDispatch.StderrTranscript

/-! The demux takes a chunk as it takes its bytes one after another, so the cuts of the stream make no difference to what
is passed on, to what is called and to what is counted. -/
namespace PiDispatch.StderrTranscript
namespace Demux

variable (mac : Mac) (maxRecordBytes : Nat)

theorem feedAll_append (demux : Demux) (first second : Bytes) : demux.feedAll mac maxRecordBytes (first ++ second) =
    (((demux.feedAll mac maxRecordBytes first).1.feedAll mac maxRecordBytes second).1,
      (demux.feedAll mac maxRecordBytes first).2 ++
        ((demux.feedAll mac maxRecordBytes first).1.feedAll mac maxRecordBytes second).2) := by
  induction first generalizing demux with
  | nil => rfl
  | cons c rest ih =>
    rw [List.cons_append]
    simp only [feedAll,ih,List.append_assoc]

private theorem pass_run (demux : Demux) (line rest : Bytes) (plain : ∀ c ∈ line, c ≠ newline ∧ c ≠ RS) :
    feedAll mac maxRecordBytes { demux with mode := .pass } (line ++ rest) =
      ((feedAll mac maxRecordBytes { demux with mode := .pass } rest).1,
        line ++ (feedAll mac maxRecordBytes { demux with mode := .pass } rest).2) := by
  induction line with
  | nil => rfl
  | cons c line ih =>
    obtain ⟨own,others⟩ := List.forall_mem_cons.mp plain
    have fed : feed mac maxRecordBytes { demux with mode := .pass } c = ({ demux with mode := .pass },[c]) := by
      unfold feed passByte
      dsimp only
      rw [if_neg own.2,if_neg own.1]
    rw [List.cons_append,feedAll,fed]
    dsimp only
    rw [ih others]
    rfl

private theorem start_empty (demux : Demux) (rest : Bytes) :
    feedAll mac maxRecordBytes { demux with mode := .start .empty } (RS :: rest) =
      feedAll mac maxRecordBytes { demux with mode := .pass } (RS :: rest) := rfl

/-- The bytes of the marker's head, one after another. -/
private theorem start_run (demux : Demux) (probe : Probe) (take rest : Bytes) (head : probe.bytes ++ take <+: MARKER) :
    feedAll mac maxRecordBytes { demux with mode := .start probe } (take ++ rest) = feedAll mac maxRecordBytes
      { demux with mode := if short : (probe.bytes ++ take).length < MARKER.length then .start ⟨probe.bytes ++ take,head,short⟩
        else .opened } rest := by
  induction take generalizing probe with
  | nil =>
    have same : probe.bytes ++ [] = probe.bytes := List.append_nil _
    have short := probe.short
    rw [dif_pos (by rw [same]; exact short)]
    simp only [same,List.nil_append]
  | cons c take ih =>
    have whole : probe.bytes ++ [c] ++ take = probe.bytes ++ c :: take := by rw [List.append_assoc]; rfl
    have first : probe.bytes ++ [c] <+: MARKER := by
      rw [← whole] at head
      exact (List.prefix_append _ _).trans head
    have fed : feed mac maxRecordBytes { demux with mode := .start probe } c =
        ({ demux with mode := if short : (probe.bytes ++ [c]).length < MARKER.length then .start ⟨probe.bytes ++ [c],first,short⟩
          else .opened },[]) := by
      unfold feed
      dsimp only
      rw [dif_pos first]
      split <;> rfl
    rw [List.cons_append,feedAll,fed]
    dsimp only
    rw [List.nil_append]
    by_cases short : (probe.bytes ++ [c]).length < MARKER.length
    · have later := ih ⟨probe.bytes ++ [c],first,short⟩ (by rw [whole]; exact head)
      rw [dif_pos short,later]
      simp only [whole]
    · have most := head.length_le
      have none : take = [] := by
        apply List.eq_nil_of_length_eq_zero
        rw [← whole,List.length_append] at most
        omega
      subst none
      rw [dif_neg short]
      rfl

private theorem marker_inside {probe : Probe} (some' : 0 < probe.bytes.length) {c : UInt8} (head : probe.bytes ++ [c] <+: MARKER) :
    c ≠ newline ∧ c ≠ RS := by
  obtain ⟨rest,same⟩ := head
  cases bytes : probe.bytes with
  | nil =>
    rw [bytes] at some'
    cases some'
  | cons first others =>
    rw [bytes,List.cons_append,List.cons_append] at same
    unfold MARKER at same
    injection same with _ same
    have inside : c ∈ ([0x70,0x69,0x64,0x74,0x20] : Bytes) := by
      rw [← same]
      simp
    have every : ∀ other ∈ ([0x70,0x69,0x64,0x74,0x20] : Bytes), other ≠ newline ∧ other ≠ RS := by decide +kernel
    exact every c inside

/-- A head that is not the marker's is passed on, and what follows it as a line that is no record. -/
private theorem start_miss (demux : Demux) (probe : Probe) (buf : Bytes) (some' : 0 < probe.bytes.length)
    (miss : ¬probe.bytes ++ buf.take (MARKER.length - probe.bytes.length) <+: MARKER) :
    feedAll mac maxRecordBytes { demux with mode := .start probe } buf =
      ((feedAll mac maxRecordBytes { demux with mode := .pass } buf).1,
        probe.bytes ++ (feedAll mac maxRecordBytes { demux with mode := .pass } buf).2) := by
  induction buf generalizing probe with
  | nil =>
    rw [List.take_nil,List.append_nil] at miss
    exact absurd probe.head miss
  | cons c rest ih =>
    have short := probe.short
    have taken : (c :: rest).take (MARKER.length - probe.bytes.length) =
        c :: rest.take (MARKER.length - (probe.bytes ++ [c]).length) := by
      have one : MARKER.length - probe.bytes.length = MARKER.length - (probe.bytes ++ [c]).length + 1 := by
        rw [List.length_append,List.length_singleton]
        omega
      rw [one,List.take_succ_cons]
    rw [taken] at miss
    by_cases head : probe.bytes ++ [c] <+: MARKER
    · have less : (probe.bytes ++ [c]).length < MARKER.length := by
        have most := head.length_le
        apply lt_of_le_of_ne most
        intro full
        apply miss
        rw [full,Nat.sub_self,List.take_zero]
        exact head
      obtain ⟨line,marker⟩ := marker_inside some' head
      have later := ih ⟨probe.bytes ++ [c],head,less⟩ (by simp) (by
        dsimp only
        rw [List.append_assoc]
        exact miss)
      have fed : feed mac maxRecordBytes { demux with mode := .start probe } c =
          ({ demux with mode := .start ⟨probe.bytes ++ [c],head,less⟩ },[]) := by
        unfold feed
        dsimp only
        rw [dif_pos head,dif_pos less]
      have passed := pass_run mac maxRecordBytes demux [c] rest (by simpa using ⟨line,marker⟩)
      rw [List.singleton_append] at passed
      rw [passed,feedAll,fed]
      dsimp only
      rw [later]
      dsimp only
      rw [List.nil_append,List.append_assoc]
    · have fed : feed mac maxRecordBytes { demux with mode := .start probe } c =
          ((feed mac maxRecordBytes { demux with mode := .pass } c).1,
            probe.bytes ++ (feed mac maxRecordBytes { demux with mode := .pass } c).2) := by
        unfold feed
        dsimp only
        rw [dif_neg head]
        rfl
      rw [feedAll,fed,feedAll]
      dsimp only
      rw [List.append_assoc]

/-- Inside a payload, after more of it. -/
def payloadMode (field fieldLen : Nat) (parts : Bytes) (held : Nat) (discarding : Bool) (run : Bytes) : Mode :=
  if discarding = true ∨ held + run.length > maxRecordBytes then .record field fieldLen [] 0 true
  else .record field fieldLen (parts ++ run) (held + run.length) false

omit mac in
private theorem payloadMode_more (field fieldLen : Nat) (parts : Bytes) (held : Nat) (discarding : Bool) (c next : UInt8)
    (run : Bytes) : ∃ parts' held' discarding', payloadMode maxRecordBytes field fieldLen parts held discarding [c] =
      .record field fieldLen parts' held' discarding' ∧
      payloadMode maxRecordBytes field fieldLen parts' held' discarding' (next :: run) =
        payloadMode maxRecordBytes field fieldLen parts held discarding (c :: next :: run) := by
  unfold payloadMode
  by_cases past : discarding = true ∨ held + [c].length > maxRecordBytes
  · refine ⟨[],0,true,if_pos past,?_⟩
    rw [if_pos (.inl rfl),if_pos]
    rcases past with past | past
    · exact .inl past
    · simp only [List.length_cons,List.length_nil] at past ⊢
      omega
  · refine ⟨_,_,_,if_neg past,?_⟩
    have kept : discarding = false := Bool.eq_false_iff.mpr fun discarding => past (.inl discarding)
    have more : held + [c].length + (next :: run).length = held + (c :: next :: run).length := by
      simp only [List.length_cons,List.length_nil]
      omega
    rw [kept,more,List.append_assoc]
    rfl

private theorem payload_run (demux : Demux) {field : Nat} (payload : FIELDS[field]? = none) (fieldLen : Nat) (parts : Bytes)
    (held : Nat) (discarding : Bool) (run rest : Bytes) (all : ∀ c ∈ run, isB64 c = true) (some' : run ≠ []) :
    feedAll mac maxRecordBytes { demux with mode := .record field fieldLen parts held discarding } (run ++ rest) =
      feedAll mac maxRecordBytes { demux with mode := payloadMode maxRecordBytes field fieldLen parts held discarding run }
        rest := by
  induction run generalizing parts held discarding with
  | nil => exact absurd rfl some'
  | cons c run ih =>
    obtain ⟨own,others⟩ := List.forall_mem_cons.mp all
    have fed : feed mac maxRecordBytes { demux with mode := .record field fieldLen parts held discarding } c =
        ({ demux with mode := payloadMode maxRecordBytes field fieldLen parts held discarding [c] },[]) := by
      unfold feed payloadMode
      dsimp only
      rw [payload]
      dsimp only
      rw [if_pos own,List.length_singleton]
      by_cases past : discarding = true ∨ held + 1 > maxRecordBytes
      · rw [if_pos past,if_pos past]
      · rw [if_neg past,if_neg past]
    rw [List.cons_append,feedAll,fed]
    dsimp only
    rw [List.nil_append]
    cases run with
    | nil => rfl
    | cons next run =>
      obtain ⟨parts',held',discarding',first,whole⟩ :=
        payloadMode_more maxRecordBytes field fieldLen parts held discarding c next run
      rw [first,ih parts' held' discarding' others (List.cons_ne_nil _ _),whole]

private theorem turn_start (demux : Demux) {probe : Probe} (mode : demux.mode = .start probe) (buf : Bytes) (more : buf ≠ []) :
    demux.feedAll mac maxRecordBytes buf =
      (((demux.turn mac maxRecordBytes buf).1.feedAll mac maxRecordBytes (demux.turn mac maxRecordBytes buf).2.2).1,
        (demux.turn mac maxRecordBytes buf).2.1 ++
          ((demux.turn mac maxRecordBytes buf).1.feedAll mac maxRecordBytes (demux.turn mac maxRecordBytes buf).2.2).2) := by
  have own : demux = { demux with mode := .start probe } := by rw [← mode]
  unfold turn
  rw [mode]
  dsimp only
  split
  next head =>
    have ran := start_run mac maxRecordBytes demux probe _ (buf.drop (MARKER.length - probe.bytes.length)) head
    have left : (buf.take (MARKER.length - probe.bytes.length)).length = min (MARKER.length - probe.bytes.length) buf.length :=
      List.length_take
    have dropped : buf.drop (buf.take (MARKER.length - probe.bytes.length)).length =
        buf.drop (MARKER.length - probe.bytes.length) := by
      rw [left]
      rcases Nat.le_total (MARKER.length - probe.bytes.length) buf.length with less | less
      · rw [min_eq_left less]
      · rw [min_eq_right less,List.drop_length,List.drop_eq_nil_of_le less]
    rw [List.take_append_drop,← own] at ran
    rw [ran,dropped]
    split
    · rfl
    · rfl
  next miss =>
    split
    next held =>
      have missed := start_miss mac maxRecordBytes demux probe buf held miss
      rw [← own] at missed
      exact missed
    next none =>
      have bare : probe.bytes = [] := List.eq_nil_of_length_eq_zero (by omega)
      cases buf with
      | nil => exact absurd rfl more
      | cons c rest =>
        rw [bare] at miss
        dsimp only
        split
        next marker =>
          subst marker
          have first : probe.bytes ++ [RS] <+: MARKER := by
            rw [bare]
            decide
          have fed : demux.feed mac maxRecordBytes RS = ({ demux with mode := .start ⟨[RS],by decide,by decide⟩ },[]) := by
            unfold feed
            rw [mode]
            dsimp only
            rw [dif_pos first,dif_pos (by rw [bare]; decide)]
            simp only [bare,List.nil_append]
          have missed := start_miss mac maxRecordBytes demux ⟨[RS],by decide,by decide⟩ rest (by decide) miss
          rw [feedAll,fed]
          dsimp only
          rw [missed]
          rfl
        next other =>
          have unlike : ¬probe.bytes ++ [c] <+: MARKER := by
            rw [bare]
            rintro ⟨later,same⟩
            injection same with same _
            exact other same
          have fed : demux.feed mac maxRecordBytes c = feed mac maxRecordBytes { demux with mode := .pass } c := by
            unfold feed
            rw [mode]
            dsimp only
            rw [dif_neg unlike,bare]
            rfl
          rw [feedAll,fed]
          rfl

private theorem turn_record (demux : Demux) {field fieldLen : Nat} {parts : Bytes} {held : Nat} {discarding : Bool}
    (mode : demux.mode = .record field fieldLen parts held discarding) (buf : Bytes) (more : buf ≠ []) :
    demux.feedAll mac maxRecordBytes buf =
      (((demux.turn mac maxRecordBytes buf).1.feedAll mac maxRecordBytes (demux.turn mac maxRecordBytes buf).2.2).1,
        (demux.turn mac maxRecordBytes buf).2.1 ++
          ((demux.turn mac maxRecordBytes buf).1.feedAll mac maxRecordBytes (demux.turn mac maxRecordBytes buf).2.2).2) := by
  have own : demux = { demux with mode := .record field fieldLen parts held discarding } := by rw [← mode]
  obtain ⟨c,rest,rfl⟩ := List.exists_cons_of_ne_nil more
  unfold turn
  rw [mode]
  dsimp only
  cases found : FIELDS[field]? with
  | some spec =>
    dsimp only
    rw [feedAll]
    unfold feed
    rw [mode]
    dsimp only
    rw [found]
    dsimp only
    split
    · rfl
    · split
      · rfl
      · split
        · rfl
        · rfl
  | none =>
    dsimp only
    have parted := List.takeWhile_append_dropWhile (p := isB64) (l := c :: rest)
    split
    next some' =>
      have all : ∀ d ∈ (c :: rest).takeWhile isB64, isB64 d = true := fun d inside => List.mem_takeWhile_imp inside
      have ran := payload_run mac maxRecordBytes demux found fieldLen parts held discarding _ ((c :: rest).dropWhile isB64) all
        (List.length_pos_iff.mp some')
      have dropped : (c :: rest).drop ((c :: rest).takeWhile isB64).length = (c :: rest).dropWhile isB64 := by
        have cut := @List.drop_left _ ((c :: rest).takeWhile isB64) ((c :: rest).dropWhile isB64)
        rw [parted] at cut
        exact cut
      rw [parted,← own] at ran
      rw [ran,dropped]
      unfold payloadMode
      split
      · rfl
      · rfl
    next none =>
      have outside : isB64 c = false := by
        cases known : isB64 c with
        | false => rfl
        | true =>
          rw [List.takeWhile_cons,if_pos known,List.length_cons] at none
          omega
      have fed : demux.feed mac maxRecordBytes c = (if c = newline then
            if discarding = true then ({ demux.oversized with mode := .start .empty },[])
            else ({ demux.settle mac parts with mode := .start .empty },[])
          else if discarding = true then demux.oversized.passByte c
          else demux.breakRecord.passByte c) := by
        unfold feed
        rw [mode]
        dsimp only
        rw [found]
        dsimp only
        rw [if_neg (by rw [outside]; exact Bool.false_ne_true)]
      rw [feedAll,fed]
      split
      · split
        · rfl
        · rfl
      · split
        · rfl
        · rfl

/-- A round of the scan is the bytes that it takes, one after another. -/
theorem turn_fed (demux : Demux) (buf : Bytes) (more : buf ≠ []) : demux.feedAll mac maxRecordBytes buf =
    (((demux.turn mac maxRecordBytes buf).1.feedAll mac maxRecordBytes (demux.turn mac maxRecordBytes buf).2.2).1,
      (demux.turn mac maxRecordBytes buf).2.1 ++
        ((demux.turn mac maxRecordBytes buf).1.feedAll mac maxRecordBytes (demux.turn mac maxRecordBytes buf).2.2).2) := by
  cases mode : demux.mode with
  | pass =>
    have own : demux = { demux with mode := .pass } := by rw [← mode]
    have whole := List.takeWhile_append_dropWhile (p := fun c => c ≠ newline && c ≠ RS) (l := buf)
    have plain : ∀ c ∈ buf.takeWhile (fun c => c ≠ newline && c ≠ RS), c ≠ newline ∧ c ≠ RS := by
      intro c inside
      have kept := List.mem_takeWhile_imp inside
      simpa using kept
    have passed := pass_run mac maxRecordBytes demux _ (buf.dropWhile fun c => c ≠ newline && c ≠ RS) plain
    rw [whole,← own] at passed
    unfold turn
    rw [mode]
    dsimp only
    split
    next left => rw [passed,left]
    next c rest left =>
      rw [passed,left]
      split
      next marker =>
        rw [marker,start_empty,← own]
      next other =>
        have line : c = newline := (other_head left).resolve_right other
        have fed : demux.feed mac maxRecordBytes c = ({ demux with mode := .start .empty },[c]) := by
          unfold feed passByte
          rw [mode]
          dsimp only
          rw [if_neg other,if_pos line]
        rw [feedAll,fed]
        dsimp only
        rw [List.append_assoc]
  | start probe => exact turn_start mac maxRecordBytes demux mode buf more
  | record field fieldLen parts held discarding => exact turn_record mac maxRecordBytes demux mode buf more

/-- A chunk is taken as its bytes are. -/
theorem step_fed (demux : Demux) (buf : Bytes) : demux.step mac maxRecordBytes buf = demux.feedAll mac maxRecordBytes buf := by
  induction demux, buf using step.induct mac maxRecordBytes with
  | case1 demux =>
    unfold step
    rfl
  | case2 demux buf more round ih =>
    unfold step
    rw [dif_neg more]
    dsimp only
    rw [ih,turn_fed mac maxRecordBytes demux buf more]

/-- The whole stream, byte by byte, and its end. -/
def whole (demux : Demux) (stream : Bytes) : Demux × Bytes :=
  let fed := demux.feedAll mac maxRecordBytes stream
  (fed.1.finish.1,fed.2 ++ fed.1.finish.2)

theorem demuxed_whole (demux : Demux) (chunks : List Bytes) :
    demux.demuxed mac maxRecordBytes chunks = demux.whole mac maxRecordBytes chunks.flatten := by
  induction chunks generalizing demux with
  | nil => rfl
  | cons chunk chunks ih =>
    unfold demuxed whole
    dsimp only
    rw [step_fed,ih,List.flatten_cons,feedAll_append]
    unfold whole
    dsimp only
    rw [List.append_assoc]

end Demux
end PiDispatch.StderrTranscript
