import PiDispatch.GatewaySession

/-! Every order of a session's events: what crosses it has passed a check in its own stretch, before the deadline in force. -/
namespace PiDispatch.GatewaySession
open Kernel Utf16

/-- The deadline in force: the first lease's, or the last renewal's. -/
def inForce (first : Nat) : List Entry → Nat
  | .renewed requestedAt authRemainingMs :: _ => requestedAt + min GATEWAY_AUTH_MS authRemainingMs
  | _ :: before => inForce first before
  | [] => first

/-- The reading of the last check passed in this stretch. -/
def checkedAt : List Entry → Option Nat
  | .checked at' :: _ => some at'
  | .turn :: _ | [] => none
  | _ :: before => checkedAt before

/-- The session has ended or its stream is lost. -/
def silenced (log : List Entry) : Bool := log.any fun entry => entry = .lost || entry = .detached

def Crossing.isEnded : Crossing → Bool
  | .ended _ => true
  | _ => false

def Crossing.isTerminal : Crossing → Bool
  | .input _ | .resized _ _ => true
  | _ => false

/-- The input accepted in the rate window that is open. -/
def accepted : List Entry → Nat
  | .window :: _ | [] => 0
  | .crossed (.input data) :: before => byteLength data + accepted before
  | _ :: before => accepted before

def Entry.isDetached : Entry → Bool
  | .detached => true
  | _ => false

def Entry.isReleased : Entry → Bool
  | .released _ => true
  | _ => false

def Entry.isTold : Entry → Bool
  | .told _ _ => true
  | _ => false

def Entry.isGoodbye : Entry → Bool
  | .crossed what => what.isEnded
  | _ => false

/-- What crosses after the log before it has its check in the same stretch, none but a driver's for the terminal. -/
structure Fits (config : Config) (what : Crossing) (before : List Entry) : Prop where
  checked : ∃ at', checkedAt before = some at' ∧ at' < inForce (firstLease config) before
  open' : silenced before = false
  driver : what.isTerminal → config.watch = false

/-- How often `onEnd` is still to come. -/
def Task.owes : Task → Bool
  | .releasing _ | .auditingEnd _ => true
  | _ => false

/-- What holds of a session between any two of its statements. -/
structure Sound (config : Config) (log : List Entry) (ended transportLost : Bool) (deadline inputBytes : Nat) (open' : Bool)
    (pendingResize : Option (Int × Int)) (tasks : List Task) : Prop where
  fits : ∀ after what before, log = after ++ .crossed what :: before → what.isEnded = true ∨ Fits config what before
  rate : ∀ after before, log = after ++ before → accepted before ≤ GATEWAY_LIMITS.bytesPerSecond
  sum : accepted log ≤ inputBytes
  force : deadline = inForce (firstLease config) log
  quiet : silenced log = (ended || transportLost)
  closed : ended = true → open' = false
  detached : log.countP Entry.isDetached = ended.toNat
  released : log.countP Entry.isReleased = ended.toNat
  goodbye : log.countP Entry.isGoodbye ≤ ended.toNat
  told : log.countP Entry.isTold + tasks.countP Task.owes = ended.toNat
  resize : config.watch = true → pendingResize = none
  asked : ∀ requestedAt, .renewing requestedAt ∈ tasks → .read requestedAt ∈ log
  leased : ∀ after requestedAt authRemainingMs before,
    log = after ++ .renewed requestedAt authRemainingMs :: before → .read requestedAt ∈ before

abbrev Good (config : Config) (session : Session) : Prop :=
  Sound config session.log session.ended session.transportLost session.deadline session.inputBytes session.open'
    session.pendingResize session.tasks

/-- The stretch has passed a check, and the session still stands. -/
structure Clear (session : Session) : Prop where
  ended : session.ended = false
  lost : session.transportLost = false
  checked : ∃ at', checkedAt session.log = some at' ∧ at' < session.deadline

section Statements

variable {config : Config} {session : Session}

/-- An entry that is no crossing, lease, window or end. -/
private def Entry.Plain (entry : Entry) : Prop := entry = .turn ∨ ∃ at', entry = .read at' ∨ entry = .checked at'

private theorem append_cons {entry last : Entry} {log after before : List Entry}
    (split : entry :: log = after ++ last :: before) :
    (after = [] ∧ entry = last ∧ log = before) ∨ ∃ rest, after = entry :: rest ∧ log = rest ++ last :: before := by
  cases after with
  | nil =>
    cases split
    exact .inl ⟨rfl,rfl,rfl⟩
  | cons first rest =>
    cases split
    exact .inr ⟨rest,rfl,rfl⟩

private theorem rate_cons {entry : Entry} {log : List Entry}
    (first : accepted (entry :: log) ≤ GATEWAY_LIMITS.bytesPerSecond)
    (rate : ∀ after before, log = after ++ before → accepted before ≤ GATEWAY_LIMITS.bytesPerSecond) :
    ∀ after before, entry :: log = after ++ before → accepted before ≤ GATEWAY_LIMITS.bytesPerSecond := by
  intro after before split
  cases after with
  | nil =>
    have same : entry :: log = before := split
    rw [← same]
    exact first
  | cons last rest => exact rate rest before (List.cons.inj split).2

private theorem leased_cons {entry : Entry} {log : List Entry}
    (own : ∀ requestedAt authRemainingMs, entry ≠ .renewed requestedAt authRemainingMs)
    (leased : ∀ after requestedAt authRemainingMs before,
      log = after ++ .renewed requestedAt authRemainingMs :: before → .read requestedAt ∈ before) :
    ∀ after requestedAt authRemainingMs before,
      entry :: log = after ++ .renewed requestedAt authRemainingMs :: before → .read requestedAt ∈ before := by
  intro after requestedAt authRemainingMs before split
  rcases append_cons split with ⟨-,same,-⟩ | ⟨rest,-,split⟩
  · exact absurd same (own _ _)
  · exact leased rest requestedAt authRemainingMs before split

private theorem fits_cons {entry : Entry} {log : List Entry} (own : ∀ what, entry = .crossed what → what.isEnded = true)
    (fits : ∀ after what before, log = after ++ .crossed what :: before → what.isEnded = true ∨ Fits config what before) :
    ∀ after what before, entry :: log = after ++ .crossed what :: before →
      what.isEnded = true ∨ Fits config what before := by
  intro after what before split
  rcases append_cons split with ⟨-,same,-⟩ | ⟨rest,-,split⟩
  · exact .inl (own what same)
  · exact fits rest what before split

/-- A plain entry changes nothing that a session keeps. -/
private theorem plain_good {entry : Entry} (plain : entry.Plain) (good : Good config session) :
    Good config { session with log := entry :: session.log } := by
  have fewer : accepted (entry :: session.log) = accepted session.log := by
    rcases plain with rfl | ⟨at',rfl | rfl⟩ <;> rfl
  constructor
  · intro after what before split
    rcases append_cons split with ⟨-,rfl,-⟩ | ⟨rest,-,split⟩
    · rcases plain with same | ⟨at',same | same⟩ <;> cases same
    · exact good.fits rest what before split
  · intro after before split
    exact rate_cons (fewer.le.trans (good.rate [] _ rfl)) good.rate after before split
  · exact fewer.le.trans good.sum
  · rcases plain with rfl | ⟨at',rfl | rfl⟩ <;> exact good.force
  · rcases plain with rfl | ⟨at',rfl | rfl⟩ <;> exact good.quiet
  · exact good.closed
  · rcases plain with rfl | ⟨at',rfl | rfl⟩ <;> exact good.detached
  · rcases plain with rfl | ⟨at',rfl | rfl⟩ <;> exact good.released
  · rcases plain with rfl | ⟨at',rfl | rfl⟩ <;> exact good.goodbye
  · rcases plain with rfl | ⟨at',rfl | rfl⟩ <;> exact good.told
  · exact good.resize
  · exact fun other member => List.mem_cons_of_mem _ (good.asked other member)
  · refine leased_cons (fun _ _ same => ?_) good.leased
    rcases plain with own | ⟨at',own | own⟩ <;> cases own.symm.trans same

private theorem now_good (good : Good config session) : Good config (now config session).2 :=
  plain_good (.inr ⟨_,.inl rfl⟩) good

private theorem now_clear (clear : Clear session) : Clear (now config session).2 := ⟨clear.ended,clear.lost,clear.checked⟩

/-- What crosses after a check keeps the session as it is. -/
private theorem cross_good {what : Crossing} (terminal : what.isTerminal → config.watch = false)
    (notEnded : what.isEnded = false)
    (sum : accepted (.crossed what :: session.log) ≤ session.inputBytes)
    (rate : accepted (.crossed what :: session.log) ≤ GATEWAY_LIMITS.bytesPerSecond)
    (good : Good config session) (clear : Clear session) : Good config (cross what session) := by
  constructor
  · intro after other before split
    rcases append_cons split with ⟨-,same,rfl⟩ | ⟨rest,-,split⟩
    · cases same
      right
      obtain ⟨at',checked,before⟩ := clear.checked
      refine ⟨⟨at',checked,good.force ▸ before⟩,?_,terminal⟩
      rw [good.quiet,clear.ended,clear.lost]
      rfl
    · exact good.fits rest other before split
  · exact rate_cons rate good.rate
  · exact sum
  · exact good.force
  · exact good.quiet
  · exact good.closed
  · exact good.detached
  · exact good.released
  · have none' : (Entry.crossed what).isGoodbye = false := notEnded
    show List.countP Entry.isGoodbye (.crossed what :: session.log) ≤ _
    rw [List.countP_cons_of_neg (by rw [none']; exact Bool.false_ne_true)]
    exact good.goodbye
  · exact good.told
  · exact good.resize
  · exact fun other member => List.mem_cons_of_mem _ (good.asked other member)
  · exact leased_cons (fun _ _ same => by cases same) good.leased

/-- What is not input crosses freely once it is checked. -/
private theorem cross_free {what : Crossing} (terminal : what.isTerminal = false) (notEnded : what.isEnded = false)
    (good : Good config session) (clear : Clear session) : Good config (cross what session) := by
  have same : accepted (.crossed what :: session.log) = accepted session.log := by
    cases what <;> first | rfl | cases terminal
  exact cross_good (fun is => by rw [terminal] at is; cases is) notEnded (same.le.trans good.sum)
    (same.le.trans (good.rate [] _ rfl)) good clear

/-- An end: the stream is let go, the browser told at most, and what is owed after the end begins. -/
private theorem end_good {log goodbye : List Entry} {transportLost : Bool} {deadline inputBytes : Nat} {isOpen : Bool}
    {pending : Option (Int × Int)} {tasks : List Task} {reason : String}
    (sound : Sound config log false transportLost deadline inputBytes isOpen pending tasks)
    (bye : goodbye = .detached :: log ∨ goodbye = .crossed (.ended reason) :: .detached :: log) :
    Sound config (.released reason :: goodbye) true transportLost deadline inputBytes false none
      (.releasing reason :: tasks) := by
  obtain ⟨fits,rate,sum,force,quiet,closed,detached,released,farewell,told,resize,asked,leased⟩ := sound
  have own : accepted log ≤ GATEWAY_LIMITS.bytesPerSecond := rate [] log rfl
  have farewell : List.countP Entry.isGoodbye log = 0 := Nat.le_zero.mp farewell
  have none' : List.countP Entry.isTold log = 0 ∧ List.countP Task.owes tasks = 0 := by
    have told : List.countP Entry.isTold log + List.countP Task.owes tasks = 0 := told
    omega
  constructor
  · refine fits_cons (fun _ same => by cases same) ?_
    rcases bye with rfl | rfl
    · exact fits_cons (fun _ same => by cases same) fits
    · refine fits_cons (fun what same => ?_) (fits_cons (fun _ same => by cases same) fits)
      cases same
      rfl
  · rcases bye with rfl | rfl
    · exact rate_cons own (rate_cons own rate)
    · exact rate_cons own (rate_cons own (rate_cons own rate))
  · rcases bye with rfl | rfl <;> exact sum
  · rcases bye with rfl | rfl <;> exact force
  · rcases bye with rfl | rfl <;> simp [silenced]
  · exact fun _ => rfl
  · rcases bye with rfl | rfl <;> simp only [List.countP_cons,detached] <;> rfl
  · rcases bye with rfl | rfl <;> simp only [List.countP_cons,released] <;> rfl
  · rcases bye with rfl | rfl
    · simp only [List.countP_cons,farewell]
      exact Nat.zero_le 1
    · simp only [List.countP_cons,farewell]
      exact Nat.le_refl 1
  · rcases bye with rfl | rfl <;> simp only [List.countP_cons,none'.1,none'.2] <;> rfl
  · exact fun _ => rfl
  · intro other member
    have old := asked other (List.mem_of_ne_of_mem (fun same => by cases same) member)
    rcases bye with rfl | rfl
    · exact List.mem_cons_of_mem _ (List.mem_cons_of_mem _ old)
    · exact List.mem_cons_of_mem _ (List.mem_cons_of_mem _ (List.mem_cons_of_mem _ old))
  · refine leased_cons (fun _ _ same => by cases same) ?_
    rcases bye with rfl | rfl
    · exact leased_cons (fun _ _ same => by cases same) leased
    · exact leased_cons (fun _ _ same => by cases same) (leased_cons (fun _ _ same => by cases same) leased)

private theorem finish_good (reason : String) (good : Good config session) : Good config (finish config reason session) := by
  unfold finish
  split
  · exact good
  next running =>
    have running : session.ended = false := by simpa using running
    have sound := good
    unfold Good at sound
    rw [running] at sound
    dsimp only
    split
    · exact end_good sound (.inl rfl)
    · exact end_good sound (.inr rfl)

/-- A check that passes leaves the session clear; one that does not leaves it as good as it was. -/
private theorem authorized_good (good : Good config session) : Good config (authorized config session).2 ∧
    ((authorized config session).1 = true → Clear (authorized config session).2) := by
  have read := now_good good
  unfold authorized
  split
  · exact ⟨good,fun may => by cases may⟩
  next running =>
    have running : session.ended = false := by simpa using running
    dsimp only
    split
    · exact ⟨finish_good _ read,fun may => by cases may⟩
    next before =>
      have before : (now config session).1 < session.deadline := Nat.not_le.mp before
      split
      · exact ⟨read,fun may => by cases may⟩
      next whole =>
        have whole : session.transportLost = false := Bool.eq_false_iff.mpr whole
        split
        · split
          · exact ⟨finish_good _ (now_good read),fun may => by cases may⟩
          · exact ⟨plain_good (.inr ⟨_,.inr rfl⟩) (now_good read),fun _ => ⟨running,whole,_,rfl,before⟩⟩
        · exact ⟨plain_good (.inr ⟨_,.inr rfl⟩) read,fun _ => ⟨running,whole,_,rfl,before⟩⟩

private theorem finish_grows {reason : String} {entry : Entry} (member : entry ∈ session.log) :
    entry ∈ (finish config reason session).log := by
  unfold finish
  split
  · exact member
  · dsimp only [await]
    split
    · exact List.mem_cons_of_mem _ (List.mem_cons_of_mem _ member)
    · exact List.mem_cons_of_mem _ (List.mem_cons_of_mem _ (List.mem_cons_of_mem _ member))

private theorem authorized_grows {entry : Entry} (member : entry ∈ session.log) :
    entry ∈ (authorized config session).2.log := by
  have read : entry ∈ (now config session).2.log := List.mem_cons_of_mem _ member
  have again : entry ∈ (now config (now config session).2).2.log := List.mem_cons_of_mem _ read
  unfold authorized
  split
  · exact member
  dsimp only
  split
  · exact finish_grows read
  split
  · exact read
  split
  · split
    · exact finish_grows again
    · exact List.mem_cons_of_mem _ again
  · exact List.mem_cons_of_mem _ read

/-- What is done once a check is passed. -/
private theorem whenAuthorized_good {go : Session → Session}
    (keeps : ∀ session, Good config session → Clear session → Good config (go session)) (good : Good config session) :
    Good config (whenAuthorized config go session) := by
  obtain ⟨kept,clear⟩ := authorized_good good
  unfold whenAuthorized
  dsimp only
  split
  next may => exact keeps _ kept (clear may)
  · exact kept

private theorem send_good {what : Crossing} {bytes : Nat} (terminal : what.isTerminal = false) (notEnded : what.isEnded = false)
    (good : Good config session) : Good config (send config what bytes session) := by
  refine whenAuthorized_good (fun session good clear => ?_) good
  split
  · exact good
  split
  · exact finish_good _ good
  split
  · exact finish_good _ good
  · exact cross_free terminal notEnded good ⟨clear.ended,clear.lost,clear.checked⟩

private theorem observe_good (room : Option Room) (force : Bool) (good : Good config session) :
    Good config (observe config room force session).2 := by
  unfold observe
  split
  · exact good
  next room =>
    split
    · exact good
    · have shared : Good config (observeSharing config room force session) := by
        unfold observeSharing
        split
        · exact send_good rfl rfl good
        · exact good
      unfold observeGeometry
      dsimp only
      split
      · exact send_good rfl rfl shared
      · exact shared

private theorem outputFrames_good (count : Nat) (bytes : List UInt8) (good : Good config session) :
    Good config (outputFrames config count bytes session) := by
  induction count generalizing bytes session with
  | zero => exact good
  | succ count ih =>
    unfold outputFrames
    split
    · exact good
    · refine whenAuthorized_good (fun session good clear => ?_) good
      split
      · exact finish_good _ good
      · exact ih _ (cross_free rfl rfl good ⟨clear.ended,clear.lost,clear.checked⟩)

private theorem output_good (bytes : List UInt8) (good : Good config session) : Good config (output config bytes session) := by
  refine whenAuthorized_good (fun session good _ => ?_) good
  split
  · exact finish_good _ good
  · exact outputFrames_good _ _ good

/-- A task that owes nothing after the end may be waited on, a renewal's with the time it was requested at. -/
private theorem await_good {task : Task} (free : task.owes = false)
    (read : ∀ requestedAt, task = .renewing requestedAt → .read requestedAt ∈ session.log) (good : Good config session) :
    Good config (await task session) where
  __ := good
  told := by
    show List.countP Entry.isTold session.log + List.countP Task.owes (task :: session.tasks) = _
    rw [List.countP_cons,free]
    exact good.told
  asked := fun requestedAt member => by
    rcases List.mem_cons.mp member with same | member
    · exact read requestedAt same.symm
    · exact good.asked requestedAt member

private theorem tick_good (good : Good config session) : Good config (tick config session) := by
  refine whenAuthorized_good (fun session good _ => ?_) good
  split
  · exact good
  · exact await_good rfl (fun _ same => by cases same; exact List.mem_cons_self ..) (now_good good)

/-- A renewal puts a new deadline in force. -/
private theorem renewal_good {requestedAt : Nat} (remaining : Nat) (read : .read requestedAt ∈ session.log)
    (good : Good config session) : Good config { session with
      deadline := requestedAt + min GATEWAY_AUTH_MS remaining, log := .renewed requestedAt remaining :: session.log } where
  __ := good
  fits := fits_cons (fun _ same => by cases same) good.fits
  rate := rate_cons (good.rate [] session.log rfl) good.rate
  force := rfl
  asked := fun other member => List.mem_cons_of_mem _ (good.asked other member)
  leased := fun after other remaining before split => by
    rcases append_cons split with ⟨-,same,rfl⟩ | ⟨rest,-,split⟩
    · cases same
      exact read
    · exact good.leased rest other remaining before split

private theorem renewed_good {requestedAt : Nat} (answer : Answer) (read : .read requestedAt ∈ session.log)
    (good : Good config session) : Good config (renewed config requestedAt answer session) := by
  unfold renewed
  split
  · exact finish_good _ good
  · split
    · exact good
    · exact finish_good _ good
  · split
    · exact good
    split
    · exact finish_good _ good
    next remaining found =>
      have first := (authorized_good good).1
      dsimp only
      split
      · exact first
      have second := (authorized_good (renewal_good remaining.toNat (authorized_grows read) first)).1
      split
      · exact second
      split
      · exact finish_good _ second
      · split
        · exact await_good rfl (fun _ same => by cases same) (observe_good _ _ second)
        · exact finish_good _ (observe_good _ _ second)

private theorem inspected_good (answer : Inspection) (good : Good config session) :
    Good config (inspected config answer session) := by
  unfold inspected
  split
  · exact finish_good _ good
  · exact good
  · split
    · exact good
    · exact finish_good _ good

/-- A driver's geometry goes to the terminal. -/
private theorem resizeLoop_good (good : Good config session) : Good config (resizeLoop config session) := by
  unfold resizeLoop
  split
  · exact good
  next cols rows pending =>
    have driver : config.watch = false := by
      cases watch : config.watch with
      | false => rfl
      | true =>
        rw [good.resize watch] at pending
        cases pending
    obtain ⟨kept,clear⟩ := authorized_good good
    dsimp only
    split
    next may =>
      have clear := clear may
      have none' : Good config { (authorized config session).2 with pendingResize := none } := by
        exact { kept with resize := fun _ => rfl }
      exact await_good rfl (fun _ same => by cases same) (cross_good (fun _ => driver) rfl none'.sum (none'.rate [] (authorized config session).2.log rfl) none'
        ⟨clear.ended,clear.lost,clear.checked⟩)
    · exact kept

private theorem resize_good (geometry : Int × Int) (driver : config.watch = false) (good : Good config session) :
    Good config (resize config geometry session) := by
  have pending : Good config { session with pendingResize := some geometry } := by
    exact { good with resize := fun watch => by rw [driver] at watch; cases watch }
  unfold resize
  split
  · exact pending
  · exact resizeLoop_good pending

private theorem terminalResized_good (done : Bool) (good : Good config session) :
    Good config (terminalResized config done session) := by
  have first := (authorized_good good).1
  have second := (authorized_good first).1
  unfold terminalResized
  dsimp only
  split
  · exact finish_good _ good
  split
  · exact first
  split
  · exact resizeLoop_good first
  split
  · exact await_good rfl (fun _ same => by cases same) second
  · exact resizeLoop_good second

private theorem geometryTold_good (answer : Answer) (good : Good config session) :
    Good config (geometryTold config answer session) := by
  unfold geometryTold
  split
  next room =>
    have first := (authorized_good good).1
    have told := observe_good (some room) false first
    dsimp only
    split
    · exact resizeLoop_good first
    split
    · exact resizeLoop_good told
    · exact finish_good _ told
  · exact finish_good _ good
  · exact finish_good _ good

/-- The frame budget's window starts anew, or goes on. -/
private theorem overFrameBudget_good (good : Good config session) : Good config (overFrameBudget config session).2 := by
  have read := now_good good
  unfold overFrameBudget
  dsimp only
  split
  · have again := now_good read
    exact { again with
      fits := fits_cons (fun _ same => by cases same) again.fits
      rate := rate_cons (Nat.zero_le _) again.rate
      sum := Nat.le_refl 0
      asked := fun other member => List.mem_cons_of_mem _ (again.asked other member)
      leased := leased_cons (fun _ _ same => by cases same) again.leased }
  · exact read

private theorem overFrameBudget_clear (clear : Clear session) : Clear (overFrameBudget config session).2 := by
  unfold overFrameBudget
  dsimp only
  split <;> exact ⟨clear.ended,clear.lost,clear.checked⟩

private theorem pinged_good (good : Good config session) : Good config (pinged config session) := by
  refine whenAuthorized_good (fun session good _ => ?_) good
  have counted := overFrameBudget_good good
  dsimp only
  split
  · exact finish_good _ counted
  · exact counted

private theorem queueControl_good (method : Method) (good : Good config session) :
    Good config (queueControl config method session) := by
  refine whenAuthorized_good (fun session good _ => ?_) good
  split
  · exact finish_good _ good
  · exact good

private theorem observed_good (room : Room) (force : Bool) (rest : List Control) (good : Good config session) :
    Good config (observed config room force rest session) := by
  have first := (authorized_good good).1
  have told := observe_good (some room) force first
  unfold observed
  dsimp only
  split
  · exact first
  · show Good config (if _ then _ else _)
    split
    · exact told
    · exact finish_good _ told

private theorem controlled_good (answer : Answer) (good : Good config session) :
    Good config (controlled config answer session) := by
  have first := (authorized_good good).1
  have second := (authorized_good first).1
  have failed : ∀ reason rest, Good config (settled rest (finish config reason session)) :=
    fun reason _ => finish_good reason good
  unfold controlled
  split
  · exact good
  next method phase rest found =>
    dsimp only
    split
    · split
      · exact first
      · split
        · split
          · exact second
          · exact second
        · exact first
    · split
      · exact observed_good _ _ _ good
      · exact failed _ _
    · split
      · split
        · exact failed _ _
        · exact good
      · exact good
    · split
      · exact good
      · exact failed _ _
    · split
      · exact failed _ _
      · exact observed_good _ _ _ good

/-- Input is counted before it is written. -/
private theorem input_good (data : Units) (driver : config.watch = false) (good : Good config session) (clear : Clear session) :
    Good config (input config data session) := by
  have counted : Good config { session with inputBytes := session.inputBytes + byteLength data } := by
    exact { good with sum := good.sum.trans (Nat.le_add_right _ _) }
  unfold input
  dsimp only
  split
  · exact finish_good _ good
  split
  · exact finish_good _ counted
  next within =>
    have within : session.inputBytes + byteLength data ≤ GATEWAY_LIMITS.bytesPerSecond := by
      rw [not_or] at within
      exact Nat.not_lt.mp within.1
    split
    · exact counted
    split
    · exact finish_good _ counted
    · have sum : byteLength data + accepted session.log ≤ session.inputBytes + byteLength data := by
        have := good.sum
        omega
      exact cross_good (fun _ => driver) rfl sum (sum.trans within) counted ⟨clear.ended,clear.lost,clear.checked⟩

private theorem content_good (members : List (Units × Value)) (good : Good config session) (clear : Clear session) :
    Good config (content config members session) := by
  unfold content
  split
  · exact good
  next capable =>
    split
    · exact queueControl_good _ good
    next =>
      split
      next data found =>
        have driver : config.watch = false := by
          cases watch : config.watch with
          | false => rfl
          | true =>
            have other : isType members "input" = false := by
              rw [watch] at capable
              exact Bool.eq_false_iff.mpr fun own => capable ⟨rfl,.inl own⟩
            rw [other] at found
            cases found
        exact input_good data driver good clear
      · split
        · unfold activity
          dsimp only
          split
          · exact now_good good
          · exact good
        · split
          next size width found =>
            have driver : config.watch = false := by
              cases watch : config.watch with
              | false => rfl
              | true =>
                have other : isType members "resize" = false := by
                  rw [watch] at capable
                  exact Bool.eq_false_iff.mpr fun own => capable ⟨rfl,.inr (.inl own)⟩
                rw [other] at found
                cases found
            unfold resizeMessage
            dsimp only
            split
            · exact finish_good _ good
            split
            · exact finish_good _ good
            · exact resize_good _ driver good
          · exact finish_good _ good

private theorem message_good (binary : Bool) (length : Nat) (parsed : Option Value) (good : Good config session) :
    Good config (message config binary length parsed session) := by
  refine whenAuthorized_good (fun session good clear => ?_) good
  have counted := overFrameBudget_good good
  have clear := @overFrameBudget_clear config _ clear
  split
  · exact finish_good _ good
  · dsimp only
    split
    · exact finish_good _ counted
    split
    · exact content_good _ counted clear
    · exact finish_good _ counted

private theorem lost_good (good : Good config session) : Good config (lost session) := by
  unfold lost
  split
  · exact good
  next standing =>
    rw [not_or] at standing
    have lost : Good config { session with transportLost := true, log := .lost :: session.log } := { good with
      fits := fits_cons (fun _ same => by cases same) good.fits
      rate := rate_cons (good.rate [] session.log rfl) good.rate
      quiet := (Bool.or_true session.ended).symm
      asked := fun other member => List.mem_cons_of_mem _ (good.asked other member)
      leased := leased_cons (fun _ _ same => by cases same) good.leased }
    exact await_good rfl (fun _ same => by cases same) lost

private theorem poll_good (good : Good config session) : Good config (poll config session) := by
  have one := now_good good
  have two := now_good one
  unfold poll
  dsimp only
  split
  · split
    · exact two
    · exact tick_good (now_good two)
  · split
    · exact one
    · exact tick_good (now_good one)

private theorem finish_closed (reason : String) (good : Good config session) :
    (finish config reason session).open' = false := by
  unfold finish
  split
  next already => exact good.closed already
  · rfl

/-- A check that does not pass where one has passed ends the session. -/
private theorem authorized_standing (good : Good config session) (clear : Clear session)
    (fails : (authorized config session).1 = false) : (authorized config session).2.open' = false := by
  have read := now_good good
  unfold authorized at fails ⊢
  rw [clear.ended,if_neg Bool.false_ne_true] at fails ⊢
  dsimp only at fails ⊢
  split
  · exact finish_closed _ read
  next before =>
    rw [if_neg before] at fails
    split
    next gone =>
      have whole : (now config session).2.transportLost = false := clear.lost
      rw [whole] at gone
      cases gone
    next whole =>
      rw [if_neg whole] at fails
      split
      next bounded =>
        rw [if_pos bounded] at fails
        split
        · exact finish_closed _ (now_good read)
        next active =>
          rw [if_neg active] at fails
          cases fails
      next unbounded =>
        rw [if_neg unbounded] at fails
        cases fails

private theorem tick_clear (good : Good config session) (clear : Clear session)
    (standing : (tick config session).open' = true) : Clear (tick config session) := by
  unfold tick whenAuthorized at standing ⊢
  dsimp only at standing ⊢
  cases may : (authorized config session).1 with
  | false =>
    rw [may,if_neg Bool.false_ne_true] at standing
    rw [authorized_standing good clear may] at standing
    cases standing
  | true =>
    have clear := (authorized_good good).2 may
    rw [if_pos rfl]
    split
    · exact clear
    · exact ⟨clear.ended,clear.lost,clear.checked⟩

private theorem poll_clear (good : Good config session) (clear : Clear session)
    (standing : (poll config session).open' = true) : Clear (poll config session) := by
  have one := now_good good
  have two := now_good one
  unfold poll at standing ⊢
  dsimp only at standing ⊢
  split
  next soon =>
    rw [if_pos soon] at standing
    split
    · exact now_clear (now_clear clear)
    next due =>
      rw [if_neg due] at standing
      exact tick_clear (now_good two) ⟨clear.ended,clear.lost,clear.checked⟩ standing
  next later =>
    rw [if_neg later] at standing
    exact tick_clear (now_good one) ⟨clear.ended,clear.lost,clear.checked⟩ standing

/-- A ping goes to no browser that the session has let go. -/
private theorem keepAlive_good (good : Good config session) (clear : session.open' = true → Clear session) :
    Good config (keepAlive config session) := by
  have one := now_good good
  have two := now_good one
  unfold keepAlive
  dsimp only
  split
  · exact one
  split
  · exact finish_good _ one
  split
  · exact finish_good _ two
  split
  next standing =>
    have clear := clear standing
    exact cross_free rfl rfl two ⟨clear.ended,clear.lost,clear.checked⟩
  · exact two

private theorem timed_good (good : Good config session) : Good config (timed config session) := by
  unfold timed
  split
  · exact whenAuthorized_good (fun session good clear => keepAlive_good (poll_good good) (poll_clear good clear)) good
  · exact good

end Statements

section Events

variable {config : Config} {session : Session}

/-- A task is taken off as its answer comes. -/
private theorem erased_good {task : Task} (free : task.owes = false) (member : task ∈ session.tasks)
    (good : Good config session) : Good config { session with tasks := session.tasks.erase task } where
  __ := good
  told := by
    have same := (List.perm_cons_erase member).countP_eq Task.owes
    rw [List.countP_cons,free] at same
    show List.countP Entry.isTold session.log + List.countP Task.owes (session.tasks.erase task) = session.ended.toNat
    rw [← good.told,same]
    rfl
  asked := fun other found => good.asked other (List.mem_of_mem_erase found)

private theorem answered_good {task : Task} {go : Session → Session} (free : task.owes = false)
    (keeps : ∀ session, Good config session → Good config (go session)) (good : Good config session) :
    Good config (answered task go session) := by
  unfold answered
  split
  next member => exact keeps _ (erased_good free member good)
  · exact good

/-- What the end owes goes on to the next task. -/
private theorem released_good (reason : String) (good : Good config session) :
    Good config (answered (.releasing reason) (await (.auditingEnd reason)) session) := by
  unfold answered
  split
  next member =>
    have same := (List.perm_cons_erase member).countP_eq Task.owes
    rw [List.countP_cons] at same
    refine { good with told := ?_, asked := fun other found => ?_ }
    · show List.countP Entry.isTold session.log +
        List.countP Task.owes (.auditingEnd reason :: session.tasks.erase (.releasing reason)) = session.ended.toNat
      rw [← good.told,same,List.countP_cons]
      rfl
    · exact good.asked other (List.mem_of_mem_erase (List.mem_of_ne_of_mem (fun same => by cases same) found))
  · exact good

private theorem audited_good (reason : String) (failed : Bool) (good : Good config session) :
    Good config (answered (.auditingEnd reason)
      (fun session => { session with log := .told reason failed :: session.log }) session) := by
  unfold answered
  split
  next member =>
    have same := (List.perm_cons_erase member).countP_eq Task.owes
    rw [List.countP_cons] at same
    refine { good with
      fits := fits_cons (fun _ same => by cases same) good.fits
      rate := rate_cons (good.rate [] session.log rfl) good.rate
      told := ?_
      asked := fun other found => List.mem_cons_of_mem _ (good.asked other (List.mem_of_mem_erase found))
      leased := leased_cons (fun _ _ same => by cases same) good.leased }
    show List.countP Entry.isTold (.told reason failed :: session.log) +
      List.countP Task.owes (session.tasks.erase (.auditingEnd reason)) = session.ended.toNat
    rw [← good.told,same,List.countP_cons]
    show _ + 1 + _ = _ + (_ + 1)
    omega
  · exact good

private theorem handle_good (event : Event) (good : Good config session) : Good config (handle config session event) := by
  have good : Good config { session with log := .turn :: session.log } := plain_good (.inl rfl) good
  unfold handle
  cases event with
  | timer => exact timed_good good
  | output bytes =>
    unfold happen
    dsimp only
    split
    · exact output_good bytes good
    · exact good
  | message binary length parsed => exact message_good binary length parsed good
  | ping => exact pinged_good good
  | pong => exact good
  | closed => exact finish_good _ good
  | streamLost => exact lost_good good
  | finish reason => exact finish_good reason good
  | tick => exact tick_good good
  | socket isOpen bufferedAmount writableLength sendThrows writeThrows =>
    refine { good with closed := fun over' => ?_ }
    show (session.open' && isOpen) = false
    rw [show session.open' = false from good.closed over',Bool.false_and]
  | control answer => exact controlled_good answer good
  | renewed requestedAt answer =>
    show Good config (answered _ _ _)
    unfold answered
    split
    next member => exact renewed_good answer (good.asked requestedAt member) (erased_good rfl member good)
    · exact good
  | inspected answer => exact answered_good rfl (fun _ good => inspected_good answer good) good
  | resized done => exact answered_good rfl (fun _ good => terminalResized_good done good) good
  | told answer => exact answered_good rfl (fun _ good => geometryTold_good answer good) good
  | lostInspected answer => exact answered_good rfl (fun _ good => finish_good _ good) good
  | released reason => exact released_good reason good
  | audited reason failed => exact audited_good reason failed good

private theorem fresh_good (config : Config) : Good config (fresh config) := by
  have none' : ∀ after what before, (fresh config).log = after ++ .crossed what :: before → False := by
    intro after what before split
    have member : Entry.crossed what ∈ (fresh config).log := by
      rw [split]
      exact List.mem_append_right _ (List.mem_cons_self ..)
    simp [fresh] at member
  refine ⟨fun after what before split => (none' after what before split).elim,?_,Nat.le_refl 0,rfl,rfl,(fun over' => by cases over'),
    rfl,rfl,Nat.le_refl 0,rfl,fun _ => rfl,(fun _ member => by cases member),?_⟩
  · exact rate_cons (Nat.zero_le _) (rate_cons (Nat.zero_le _) (rate_cons (Nat.zero_le _) (rate_cons (Nat.zero_le _)
    fun after before split => by
      rw [(List.append_eq_nil_iff.mp split.symm).2]
      exact Nat.zero_le _)))
  · intro after requestedAt authRemainingMs before split
    have member : Entry.renewed requestedAt authRemainingMs ∈ (fresh config).log := by
      rw [split]
      exact List.mem_append_right _ (List.mem_cons_self ..)
    simp [fresh] at member

private theorem start_good (config : Config) : Good config (runGatewaySession config) := by
  have told := observe_good config.room true (fresh_good config)
  have read := now_good told
  unfold runGatewaySession
  dsimp only
  split
  · exact told
  split
  · exact read
  · exact poll_good read

private theorem handled_good (events : List Event) (good : Good config session) :
    Good config (events.foldl (handle config) session) := by
  induction events generalizing session with
  | nil => exact good
  | cons event rest ih => exact ih (handle_good event good)

/-- What a session has done after any events. -/
def course (config : Config) (events : List Event) : List Entry :=
  (events.foldl (handle config) (runGatewaySession config)).log

/-- Time goes on between the check and the budget's readings. -/
private def late : Config := ⟨.drive,"c",none,5000,0,fun reading => if reading ≤ 6 then 0 else if reading = 7 then 4999 else 5001⟩

private def typed : Value :=
  .object [(spell "type",.string (spell "input")),(spell "data",.string (spell "x"))]

end Events

end PiDispatch.GatewaySession
