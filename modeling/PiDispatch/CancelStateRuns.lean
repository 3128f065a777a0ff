import PiDispatch.CancelState

/-! What the removal of a waiting job tells of itself, however its commands fare and whatever others do between them: it
keeps to what it says but in one case, and deletes no lease that it did not read as the job's own. -/
namespace PiDispatch.CancelState
open Kernel

section Serving

variable {setting : Setting}

private theorem read_kept {store : Store} {command : Command} (read : command.isRead = true) :
    (answer setting store command).2 = store := by
  cases command with
  | hgetall | getJob | getState | hexists | getLease | guard => rfl
  | delHold | srem | delLease | remove | aside => cases read

private theorem land_kept {command : Command} (read : command.isRead = true) (others : List (Store → Store)) (store : Store) :
    ∀ landing ∈ (land setting command others store).1, landing.1 = landing.2 := by
  induction others generalizing store with
  | nil => exact fun _ inside => absurd inside List.not_mem_nil
  | cons first rest ih =>
    intro landing inside
    rcases List.mem_cons.mp inside with rfl | later
    · exact (read_kept read).symm
    · exact ih _ landing later

/-- A command is logged with its reply, and a read changes nothing. -/
private theorem serve_sent (world : World) (command : Command) :
    ∃ landings, (serve setting world command).2.log = ⟨command,landings,(serve setting world command).1⟩ :: world.log ∧
      (command.isRead = true → ∀ landing ∈ landings, landing.1 = landing.2) := by
  unfold serve
  dsimp only
  split
  next fault _ => exact ⟨_,rfl,fun read => land_kept read _ _⟩
  next answered =>
    refine ⟨_,rfl,fun read landing inside => ?_⟩
    rcases List.mem_append.mp inside with old | new
    · exact land_kept read _ _ landing old
    · rw [List.mem_singleton.mp new]
      exact (read_kept read).symm

end Serving

section Meeting

variable {setting : Setting} {α β : Type} {log : List Sent} {post : α → List Sent → Prop}

/-- However its commands fare, the program ends as `post` says. -/
private def Meets (setting : Setting) (program : Call α) (log : List Sent) (post : α → List Sent → Prop) : Prop :=
  ∀ store deliveries, post (program.run (serve setting) (⟨store,deliveries,log⟩ : World)).1
    (program.run (serve setting) (⟨store,deliveries,log⟩ : World)).2.log

private theorem meets_done {value : α} (holds : post value log) : Meets setting (.done value) log post :=
  fun _ _ => holds

private theorem meets_issue {command : Command} {resume : Except Fault command.Carrier → Call α}
    (each : ∀ reply landings, (command.isRead = true → ∀ landing ∈ landings, landing.1 = landing.2) →
      Meets setting (resume reply) (⟨command,landings,reply⟩ :: log) post) :
    Meets setting (@Program.issue Cancel _ command resume) log post := by
  intro store deliveries
  obtain ⟨landings,logged,read⟩ := @serve_sent setting ⟨store,deliveries,log⟩ command
  have rest := each (serve setting ⟨store,deliveries,log⟩ command).1 landings read
    (serve setting ⟨store,deliveries,log⟩ command).2.store (serve setting ⟨store,deliveries,log⟩ command).2.deliveries
  rw [← logged] at rest
  exact rest

private theorem meets_bind {program : Call α} {next : α → Call β} {middle : α → List Sent → Prop}
    {post : β → List Sent → Prop} (first : Meets setting program log middle)
    (second : ∀ value log, middle value log → Meets setting (next value) log post) :
    Meets setting (program.bind next) log post := by
  intro store deliveries
  rw [Program.run_bind]
  exact second _ _ (first store deliveries) _ _

private theorem meets_weaken {program : Call α} {wider : α → List Sent → Prop} (meets : Meets setting program log post)
    (wide : ∀ value log, post value log → wider value log) : Meets setting program log wider :=
  fun store deliveries => wide _ _ (meets store deliveries)

end Meeting

section Logs

variable {jobId : String} {log : List Sent} {sent : Sent}

/-- A lease is deleted right after it was read as the job's own. -/
private def Owned (jobId : String) (log : List Sent) : Prop :=
  ∀ later earlier dedupId landings reply, log = later ++ ⟨.delLease dedupId,landings,reply⟩ :: earlier →
    ∃ landings rest, earlier = ⟨.getLease dedupId,landings,.ok (some jobId)⟩ :: rest

private def Confirmed (log : List Sent) : Prop := ∃ landings, (⟨.remove,landings,.ok ()⟩ : Sent) ∈ log

private theorem owned_cons (owned : Owned jobId log)
    (own : ∀ dedupId, sent.command = .delLease dedupId → ∃ landings rest,
      log = ⟨.getLease dedupId,landings,.ok (some jobId)⟩ :: rest) : Owned jobId (sent :: log) := by
  intro later earlier dedupId landings reply same
  cases later with
  | nil =>
    obtain ⟨rfl,rfl⟩ := List.cons.inj same
    exact own dedupId rfl
  | cons _ later =>
    obtain ⟨_,rfl⟩ := List.cons.inj same
    exact owned later earlier dedupId landings reply rfl

private theorem heldAgain_cons (other : sent.command ≠ .hexists) (again : HeldAgain (sent :: log)) : HeldAgain log := by
  obtain ⟨later,earlier,landings,landings',fault,same,changed⟩ := again
  cases later with
  | nil =>
    obtain ⟨rfl,_⟩ := List.cons.inj same
    exact absurd rfl other
  | cons _ later =>
    obtain ⟨_,rfl⟩ := List.cons.inj same
    exact ⟨later,earlier,landings,landings',fault,rfl,changed⟩

/-- The commands so far are as they should be while the job is there, the hold's hash deleted or not. -/
private structure Sound (jobId : String) (log : List Sent) : Prop where
  owned : Owned jobId log
  settled : ¬HeldAgain log

private theorem sound_nil : Sound jobId [] := by
  constructor
  · intro later earlier dedupId landings reply same
    exact absurd same (by simp)
  · rintro ⟨later,earlier,landings,landings',fault,same,_⟩
    exact absurd same (by simp)

private theorem sound_cons (sound : Sound jobId log) (lease : ∀ dedupId, sent.command ≠ .delLease dedupId)
    (other : sent.command ≠ .hexists) : Sound jobId (sent :: log) :=
  ⟨owned_cons sound.owned fun dedupId same => absurd same (lease dedupId),fun again => sound.settled (heldAgain_cons other again)⟩

private theorem unconfirmed_cons (open' : ¬Confirmed log) (other : sent.command = .remove → sent.reply.toBool = false) :
    ¬Confirmed (sent :: log) := by
  rintro ⟨landings,inside⟩
  rcases List.mem_cons.mp inside with rfl | old
  · have lost : (Except.ok () : Except Fault Unit).toBool = false := other rfl
    cases lost
  · exact open' ⟨landings,old⟩

/-- The job's removal is not yet confirmed. -/
private structure Waiting (jobId : String) (log : List Sent) : Prop extends Sound jobId log where
  waits : ¬Confirmed log

/-- Nothing but reads was sent. -/
private structure Quiet (jobId : String) (log : List Sent) : Prop extends Waiting jobId log where
  idle : ∀ sent ∈ log, sent.Idle

private theorem waiting_cons (waiting : Waiting jobId log) (lease : ∀ dedupId, sent.command ≠ .delLease dedupId)
    (other : sent.command ≠ .hexists) (unremoved : sent.command = .remove → sent.reply.toBool = false) :
    Waiting jobId (sent :: log) :=
  ⟨sound_cons waiting.toSound lease other,unconfirmed_cons waiting.waits unremoved⟩

private theorem quiet_nil : Quiet jobId [] :=
  ⟨⟨sound_nil,fun confirmed => absurd confirmed.choose_spec List.not_mem_nil⟩,fun _ inside => absurd inside List.not_mem_nil⟩

private theorem quiet_cons (quiet : Quiet jobId log) (read : sent.command.isRead = true) (other : sent.command ≠ .hexists)
    (idle : sent.Idle) : Quiet jobId (sent :: log) := by
  refine ⟨waiting_cons quiet.toWaiting ?_ other ?_,?_⟩
  · intro dedupId same
    rw [same] at read
    cases read
  · intro same
    rw [same] at read
    cases read
  · intro earlier inside
    rcases List.mem_cons.mp inside with rfl | old
    · exact idle
    · exact quiet.idle earlier old

end Logs

section Removing

variable {setting : Setting} {jobId : String} {log : List Sent} {job : Job}

/-- What a command beside the job's keys leaves as it was. -/
private def Beside (kept : List Sent → Prop) : Prop :=
  ∀ log key landings reply, kept log → kept (⟨.aside key,landings,reply⟩ :: log)

private theorem beside_sound : Beside (Sound jobId) :=
  fun _ _ _ _ sound => sound_cons sound (fun _ same => (nomatch same)) (fun same => (nomatch same))

private theorem beside_waiting : Beside (Waiting jobId) :=
  fun _ _ _ _ waiting => waiting_cons waiting (fun _ same => (nomatch same)) (fun same => (nomatch same)) (fun same => (nomatch same))

private theorem begin_kept {kept : List Sent → Prop} (beside : Beside kept) (holds : kept log) :
    Meets setting (touchBegin setting job) log fun _ => kept := by
  unfold touchBegin
  split
  · exact meets_done holds
  · refine meets_issue fun reply landings _ => ?_
    cases reply with
    | error fault => exact meets_done (beside _ _ _ _ holds)
    | ok _ => exact meets_issue fun _ _ _ => meets_done (beside _ _ _ _ (beside _ _ _ _ holds))

private theorem abort_kept {kept : List Sent → Prop} (beside : Beside kept) (holds : kept log) :
    Meets setting (touchAbort setting job) log fun _ => kept := by
  unfold touchAbort
  split
  · exact meets_done holds
  · exact meets_issue fun _ _ _ => meets_done (beside _ _ _ _ holds)

private theorem applied_kept {kept : List Sent → Prop} (beside : Beside kept) (holds : kept log) :
    Meets setting (touchApplied setting job) log fun _ => kept := by
  unfold touchApplied
  split
  · exact meets_done holds
  · exact meets_issue fun _ _ _ => meets_done (beside _ _ _ _ holds)

private theorem dropKey_kept {kept : List Sent → Prop} {key : Aside} (beside : Beside kept) (holds : kept log) :
    Meets setting (dropKey key) log fun _ => kept :=
  meets_issue fun _ _ _ => meets_done (beside _ _ _ _ holds)

private theorem dropAttempt_kept {kept : List Sent → Prop} (beside : Beside kept) (holds : kept log) :
    Meets setting (dropAttemptOf setting) log fun _ => kept := by
  unfold dropAttemptOf
  split
  · exact dropKey_kept beside holds
  · exact meets_done holds

/-- What is known of the commands once the job's removal was tried: it is not confirmed if it threw. -/
private def Tried (jobId : String) (tried : Except Fault Bool) (log : List Sent) : Prop :=
  match tried with
  | .ok _ => Sound jobId log
  | .error _ => Waiting jobId log

private theorem remove_waiting {fault : Fault} {landings : List (Store × Store)} (waiting : Waiting jobId log) :
    Waiting jobId (⟨.remove,landings,.error fault⟩ :: log) :=
  waiting_cons waiting (fun _ same => (nomatch same)) (fun same => (nomatch same)) fun _ => rfl

private theorem remove_sound {landings : List (Store × Store)} (waiting : Waiting jobId log) :
    Sound jobId (⟨.remove,landings,.ok ()⟩ :: log) :=
  sound_cons waiting.toSound (fun _ same => (nomatch same)) (fun same => (nomatch same))

private theorem removal_tried (waiting : Waiting jobId log) :
    Meets setting (removal setting job) log (Tried jobId) := by
  unfold removal
  split
  · refine meets_issue fun reply landings _ => ?_
    cases reply with
    | error fault => exact meets_done (remove_waiting waiting)
    | ok _ => exact meets_done (remove_sound waiting)
  · unfold trackTouchAction
    refine meets_bind (begin_kept beside_waiting waiting) fun _ log waiting => ?_
    refine meets_issue fun reply landings _ => ?_
    cases reply with
    | error fault =>
      exact meets_bind (abort_kept beside_waiting (remove_waiting waiting)) fun _ _ waiting => meets_done waiting
    | ok _ =>
      dsimp only
      split
      · exact meets_bind (applied_kept beside_sound (remove_sound waiting)) fun _ _ sound => meets_done sound
      · exact meets_bind (abort_kept beside_sound (remove_sound waiting)) fun _ _ sound => meets_done sound

/-- How a held job's removal ends, past its hold's first delete. -/
private def Ended (jobId : String) (removal : Removal) (log : List Sent) : Prop :=
  match removal with
  | .ok _ _ => Sound jobId log
  | .invalid _ cleared => cleared = true ∧ Waiting jobId log

private theorem removeJob_ended {dropDefer : Bool} (waiting : Waiting jobId log) :
    Meets setting (removeJob setting job dropDefer) log (Ended jobId) := by
  unfold removeJob
  refine meets_bind (removal_tried waiting) fun tried log known => ?_
  cases tried with
  | error fault => exact meets_done ⟨rfl,known⟩
  | ok touchWarning =>
    have dropped : Meets setting (if dropDefer then dropDeferRecord else .done ()) log fun _ => Sound jobId := by
      split
      · exact dropKey_kept beside_sound known
      · exact meets_done known
    refine meets_bind dropped fun _ log sound => ?_
    exact meets_bind (dropAttempt_kept beside_sound sound) fun _ _ sound => meets_done sound

private theorem releaseLease_ended {hash : Dict String String} {dropDefer : Bool} (waiting : Waiting setting.jobId log) :
    Meets setting (releaseLease setting job hash dropDefer) log (Ended setting.jobId) := by
  unfold releaseLease
  split
  · exact removeJob_ended waiting
  next dedupId _ =>
    refine meets_issue fun reply landings _ => ?_
    have read : Waiting setting.jobId (⟨.getLease dedupId,landings,reply⟩ :: log) :=
      waiting_cons waiting (fun _ same => (nomatch same)) (fun same => (nomatch same)) (fun same => (nomatch same))
    cases reply with
    | error fault => exact meets_done ⟨rfl,read⟩
    | ok holder =>
      dsimp only
      split
      next own =>
        refine meets_issue fun reply landings' _ => ?_
        have deleted : Waiting setting.jobId (⟨.delLease dedupId,landings',reply⟩ :: ⟨.getLease dedupId,landings,.ok holder⟩ :: log) := by
          refine ⟨⟨owned_cons read.owned ?_,fun again => ?_⟩,unconfirmed_cons read.waits fun same => (nomatch same)⟩
          · intro dedupId same
            cases same
            rw [own]
            exact ⟨landings,log,rfl⟩
          · refine read.settled (heldAgain_cons ?_ again)
            exact fun same => (nomatch same)
        cases reply with
        | error fault => exact meets_done ⟨rfl,deleted⟩
        | ok _ => exact removeJob_ended deleted
      · exact removeJob_ended read

end Removing

section Promises

variable {setting : Setting} {jobId : String} {log : List Sent} {job : Job} {final : Answer}

/-- The promise is kept in all but one case. -/
private def Exact (jobId : String) (final : Answer) (log : List Sent) : Prop := Kept jobId final log ↔ ¬HeldAgain log

private theorem exact_sound (sound : Sound jobId log) (removed : isRemoved final = true) (tells : saysUnchanged final = false) :
    Exact jobId final log := by
  refine ⟨fun _ => sound.settled,fun _ => ⟨fun told => ?_,fun _ => removed,sound.owned⟩⟩
  rw [tells] at told
  cases told

private theorem exact_waiting (waiting : Waiting jobId log) (tells : saysUnchanged final = false) : Exact jobId final log := by
  refine ⟨fun _ => waiting.settled,fun _ => ⟨fun told => ?_,fun confirmed => absurd confirmed waiting.waits,waiting.owned⟩⟩
  rw [tells] at told
  cases told

private theorem exact_quiet (quiet : Quiet jobId log) : Exact jobId final log :=
  ⟨fun _ => quiet.settled,fun _ => ⟨fun _ => quiet.idle,fun confirmed => absurd confirmed quiet.waits,quiet.owned⟩⟩

/-- How the whole of a held job's removal ends. -/
private def Promised (jobId : String) (removal : Removal) (log : List Sent) : Prop := Exact jobId (answerOf removal) log

private theorem ended_promised {removal : Removal} (ended : Ended jobId removal log) : Promised jobId removal log := by
  cases removal with
  | ok attemptsMade touchWarning => exact exact_sound ended rfl rfl
  | invalid reason cleared =>
    obtain ⟨rfl,waiting⟩ := ended
    exact exact_waiting waiting rfl

/-- A first delete that threw, its hold read back. -/
private theorem readBack_promised {landings landings' : List (Store × Store)} {fault : Fault} {reason : String}
    (quiet : Quiet jobId log) (read : ∀ landing ∈ landings', landing.1 = landing.2) :
    Promised jobId (.invalid reason false) (⟨.hexists,landings',.ok true⟩ :: ⟨.delHold,landings,.error fault⟩ :: log) := by
  have waiting : Waiting jobId (⟨.delHold,landings,.error fault⟩ :: log) :=
    waiting_cons quiet.toWaiting (fun _ same => (nomatch same)) (fun same => (nomatch same)) (fun same => (nomatch same))
  constructor
  · rintro kept ⟨later,earlier,landings₁,landings₂,fault',same,landing,inside,changed⟩
    have idle : Sent.Idle ⟨.delHold,landings₁,.error fault'⟩ := by
      apply kept.unchanged rfl
      rw [same]
      simp
    exact changed (idle landing inside)
  · intro calm
    have idle : Sent.Idle ⟨.delHold,landings,.error fault⟩ := by
      intro landing inside
      by_contra changed
      exact calm ⟨[],log,landings,landings',fault,rfl,landing,inside,changed⟩
    refine ⟨?_,?_,?_⟩
    · intro _ sent inside
      rcases List.mem_cons.mp inside with rfl | inside
      · exact read
      rcases List.mem_cons.mp inside with rfl | inside
      · exact idle
      · exact quiet.idle sent inside
    · intro confirmed
      exact absurd confirmed (unconfirmed_cons waiting.waits fun same => (nomatch same))
    · exact owned_cons waiting.owned fun _ same => (nomatch same)

private theorem deleteHold_promised {hash : Dict String String} {dropDefer : Bool} (quiet : Quiet setting.jobId log) :
    Meets setting (deleteHold setting job hash dropDefer) log (Promised setting.jobId) := by
  unfold deleteHold
  refine meets_issue fun reply landings _ => ?_
  have waiting : Waiting setting.jobId (⟨.delHold,landings,reply⟩ :: log) :=
    waiting_cons quiet.toWaiting (fun _ same => (nomatch same)) (fun same => (nomatch same)) (fun same => (nomatch same))
  cases reply with
  | ok _ =>
    refine meets_issue fun reply landings' _ => ?_
    refine meets_weaken (releaseLease_ended ?_) fun _ _ => ended_promised
    exact waiting_cons waiting (fun _ same => (nomatch same)) (fun same => (nomatch same)) (fun same => (nomatch same))
  | error fault =>
    dsimp only
    unfold holdInPlace
    split
    · exact meets_done (exact_waiting waiting rfl)
    · refine meets_issue fun reply landings' read => ?_
      have unsettled (lost : reply ≠ .ok true) : Waiting setting.jobId
          (⟨.hexists,landings',reply⟩ :: ⟨.delHold,landings,.error fault⟩ :: log) := by
        refine ⟨⟨owned_cons waiting.owned fun _ same => (nomatch same),?_⟩,
          unconfirmed_cons waiting.waits fun same => (nomatch same)⟩
        rintro ⟨later,earlier,landings₁,landings₂,fault',same,changed⟩
        cases later with
        | nil =>
          obtain ⟨first,_⟩ := List.cons.inj same
          cases first
          exact lost rfl
        | cons _ later =>
          obtain ⟨_,rest⟩ := List.cons.inj same
          exact waiting.settled ⟨later,earlier,landings₁,landings₂,fault',rest,changed⟩
      cases reply with
      | error fault' => exact meets_done (exact_waiting (unsettled fun same => (nomatch same)) rfl)
      | ok inPlace =>
        cases inPlace with
        | false => exact meets_done (exact_waiting (unsettled fun same => (nomatch same)) rfl)
        | true => exact meets_done (readBack_promised quiet (read rfl))

private theorem held_promised {dropDefer : Bool} (quiet : Quiet setting.jobId log) :
    Meets setting (removeHeldJob setting dropDefer) log (Promised setting.jobId) := by
  have reads (command : Command) (read : command.isRead = true) (other : command ≠ .hexists) {log : List Sent}
      (quiet : Quiet setting.jobId log) (reply : Except Fault command.Carrier) (landings : List (Store × Store))
      (idle : command.isRead = true → ∀ landing ∈ landings, landing.1 = landing.2) :
      Quiet setting.jobId (⟨command,landings,reply⟩ :: log) := quiet_cons quiet read other (idle read)
  unfold removeHeldJob
  refine meets_issue fun reply landings idle => ?_
  have quiet := reads .hgetall rfl (fun same => (nomatch same)) quiet reply landings idle
  cases reply with
  | error fault => exact meets_done (exact_quiet quiet)
  | ok hash =>
    dsimp only
    split
    · exact meets_done (exact_quiet quiet)
    · refine meets_issue fun reply landings idle => ?_
      have quiet := reads .getJob rfl (fun same => (nomatch same)) quiet reply landings idle
      cases reply with
      | error fault => exact meets_done (exact_quiet quiet)
      | ok found =>
        cases found with
        | none => exact meets_done (exact_quiet quiet)
        | some job =>
          refine meets_issue fun reply landings idle => ?_
          have quiet := reads .getState rfl (fun same => (nomatch same)) quiet reply landings idle
          split
          · exact deleteHold_promised quiet
          · exact meets_done (exact_quiet quiet)

private theorem guarded_promised {job : Option Job} (quiet : Quiet setting.jobId log) :
    Meets setting (guarded setting job) log fun stop log => Quiet setting.jobId log ∧
      ∀ answer ∈ stop, saysUnchanged answer = true := by
  unfold guarded
  split
  · exact meets_done ⟨quiet,fun _ none' => (nomatch none')⟩
  · refine meets_issue fun reply landings idle => ?_
    have quiet : Quiet setting.jobId (⟨.guard job,landings,reply⟩ :: log) :=
      quiet_cons quiet rfl (fun same => (nomatch same)) (idle rfl)
    cases reply with
    | error fault =>
      refine meets_done ⟨quiet,fun answer own => ?_⟩
      cases own
      rfl
    | ok found =>
      cases found with
      | none => exact meets_done ⟨quiet,fun _ none' => (nomatch none')⟩
      | some stop =>
        refine meets_done ⟨quiet,fun answer own => ?_⟩
        cases own
        rfl

private theorem stateOf_kept {kept : List Sent → Prop}
    (read : ∀ landings reply, (∀ landing ∈ landings, landing.1 = landing.2) → kept (⟨.getState,landings,reply⟩ :: log)) :
    Meets setting stateOf log fun _ => kept := by
  refine meets_issue fun reply landings idle => ?_
  cases reply with
  | error fault => exact meets_done (read landings (.error fault) (idle rfl))
  | ok state => exact meets_done (read landings (.ok state) (idle rfl))

private theorem removeWaiting_promised {state : String} (quiet : Quiet setting.jobId log) :
    Meets setting (removeWaiting setting job state) log (Exact setting.jobId) := by
  unfold removeWaiting
  refine meets_bind (guarded_promised quiet) fun stop log known => ?_
  obtain ⟨quiet,_⟩ := known
  cases stop with
  | some stop => exact meets_done (exact_quiet quiet)
  | none =>
    refine meets_bind (removal_tried quiet.toWaiting) fun tried log known => ?_
    cases tried with
    | error fault =>
      have known : Waiting setting.jobId log := known
      refine meets_bind (stateOf_kept ?_) fun state log waiting => meets_done (exact_waiting waiting rfl)
      exact fun landings reply _ => waiting_cons known (fun _ same => (nomatch same)) (fun same => (nomatch same))
        (fun same => (nomatch same))
    | ok touchWarning =>
      refine meets_bind (dropKey_kept beside_sound known) fun _ log sound => ?_
      exact meets_bind (dropAttempt_kept beside_sound sound) fun _ log sound => meets_done (exact_sound sound rfl rfl)

private theorem queued_promised (job : Option Job) (state : Option String) :
    Meets setting (removeQueuedJob setting job state) [] (Exact setting.jobId) := by
  unfold removeQueuedJob
  refine meets_issue fun hash landings idle => ?_
  have quiet : Quiet setting.jobId [⟨.hgetall,landings,hash⟩] :=
    quiet_cons quiet_nil rfl (fun same => (nomatch same)) (idle rfl)
  split
  · refine meets_bind (guarded_promised quiet) fun stop log known => ?_
    obtain ⟨quiet,_⟩ := known
    cases stop with
    | some stop => exact meets_done (exact_quiet quiet)
    | none => exact meets_bind (held_promised quiet) fun removal log promised => meets_done promised
  · cases job with
    | none => exact meets_done (exact_quiet quiet)
    | some job =>
      have current : Meets setting (currentOf state) [⟨.hgetall,landings,hash⟩] fun _ => Quiet setting.jobId := by
        cases state with
        | some state => exact meets_done quiet
        | none => exact stateOf_kept fun landings reply idle => quiet_cons quiet rfl (fun same => (nomatch same)) idle
      refine meets_bind current fun state log quiet => ?_
      split
      · exact removeWaiting_promised quiet
      · exact meets_done (exact_quiet quiet)

end Promises

/-- A cancel keeps to what it says, whatever its commands' fates and whatever others do between them, unless its first
delete threw after it deleted the hold and the hold was there again when it was read back. -/
theorem cancel_told (setting : Setting) (store : Store) (deliveries : List Delivery) :
    (∀ dropDefer, let ended := (removeHeldJob setting dropDefer).run (serve setting) (⟨store,deliveries,[]⟩ : World)
      Kept setting.jobId (answerOf ended.1) ended.2.log ↔ ¬HeldAgain ended.2.log) ∧
    ∀ job state, let ended := (removeQueuedJob setting job state).run (serve setting) (⟨store,deliveries,[]⟩ : World)
      Kept setting.jobId ended.1 ended.2.log ↔ ¬HeldAgain ended.2.log :=
  ⟨fun _ => held_promised quiet_nil store deliveries,fun job state => queued_promised job state store deliveries⟩

section Samples

def waiting : Store :=
  ⟨Dict.empty.set "since" "1000",["7"],.empty,some ⟨"delayed",false,0,some "local",none⟩⟩

def asked : Setting := ⟨"7",false,true,false,fun _ => true,true,none,"Job 7 could not be removed because it is locked by another worker"⟩

/-- The worker takes the job up, finds its condition unmet and holds it again. -/
def heldAnew (store : Store) : Store :=
  { store with hold := if (store.hold.get? "since").isSome then store.hold else store.hold.set "since" "2000" }

/-- The first delete is lost on its way back, and the job is held again before the read. -/
def lostReply : List Delivery :=
  [⟨[],id,none⟩,⟨[],id,none⟩,⟨[],id,none⟩,⟨[id],id,some "Connection is closed."⟩,⟨[],heldAnew,none⟩]

/-- The hold's clock was deleted and started anew, and the answer says that nothing was changed. -/
theorem held_anew_told_unchanged :
    let ended := (removeHeldJob asked false).run (serve asked) (⟨waiting,lostReply,[]⟩ : World)
    ended.1 = .invalid "Connection is closed." false ∧ ended.2.store.hold.get? "since" = some "2000" ∧
      ¬Kept "7" (answerOf ended.1) ended.2.log := by
  refine ⟨by decide,by decide,fun kept => ?_⟩
  have idle := kept.unchanged (by decide) ⟨.delHold,[(waiting,{ waiting with hold := .empty })],.error "Connection is closed."⟩
    (List.mem_cons_of_mem _ List.mem_cons_self)
  exact absurd (idle _ List.mem_cons_self) (by decide)

end Samples

end PiDispatch.CancelState
