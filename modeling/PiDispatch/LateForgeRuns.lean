import PiDispatch.Kernel.Tokens
import PiDispatch.LateForge

/-! Settles of any runs, side by side, under faults of the fallback read, the enqueue and the preseed: each late forge
message is carried or answered, and each delivered one is carried at most once. -/
namespace PiDispatch.LateForge
open Kernel SteerInbox

/-- The run and the message that a deed carries. -/
def Deed.carriage : Deed → Option (String × Entry)
  | .enqueued run first _ => some (run,first)
  | .seeded run _ entry _ => some (run,entry)
  | .commented _ _ => none

def Deed.answers (run id : String) : Deed → Nat
  | .commented other answer => if other = run then answer.countP fun entry => entry.id = id else 0
  | _ => 0

/-- How often a run's message was carried, and how often it was answered. -/
def Store.carried (store : Store) (run id : String) : Nat :=
  store.deeds.countP fun deed => deed.carriage.any fun carriage => carriage.1 = run ∧ carriage.2.id = id

def Store.answered (store : Store) (run id : String) : Nat := (store.deeds.map (Deed.answers run id)).sum

/-- How often a message was carried by any run. -/
def Store.carriedAnywhere (store : Store) (id : String) : Nat :=
  store.deeds.countP fun deed => deed.carriage.any fun carriage => carriage.2.id = id

def fresh (late : List Entry) : List Entry := late.filter fun entry => hopOf entry = 0

/-- The message began an enqueued job. -/
def Began (store : Store) (report : Report) (entry : Entry) : Prop :=
  (fresh report.late).head? = some entry ∧
  ∃ job, .enqueued (inboxKey report.run) entry job ∈ store.deeds ∧ ∃ queued ∈ store.jobs, queued.id = job

/-- The message is in the inbox of the job that the first one began, since a preseed that was answered: written by it with
hop 1, unless its id was there before. -/
def Carried (store : Store) (report : Report) (entry : Entry) : Prop :=
  ∃ first job, .enqueued (inboxKey report.run) first job ∈ store.deeds ∧
    ∃ wrote : Bool, .seeded (inboxKey report.run) (inboxKey job) entry wrote ∈ store.deeds ∧
      ∃ stored ∈ (store.inbox job).list, stored.id = entry.id ∧ (wrote → stored.hop = some 1)

def Answered (store : Store) (report : Report) (entry : Entry) : Prop :=
  ∃ answer, .commented (inboxKey report.run) answer ∈ store.deeds ∧ entry ∈ answer

def isEnqueue : Forge.Command → Bool
  | .enqueue _ _ _ _ _ => true
  | _ => false

def isComment : Forge.Command → Bool
  | .comment _ _ => true
  | _ => false

/-- The enqueue took its job. -/
private def took : Except Fault (Option String) → Bool
  | .ok (some _) => true
  | _ => false

private def wrote : Except Fault SteerInbox.Answer → Bool
  | .ok (.preseeded (.ok _)) => true
  | _ => false

/-- What a settle has to pay from each of its points on: before the enqueue, before the preseed, before the comment. -/
private structure Prices (tariff : Tariff Forge) (settle : Settle) (before after : List Entry → List Entry → Nat)
    (last : List Entry → Nat) : Prop where
  read : tariff.pays (.readFallbacks settle.run) = 0
  unstarted : ∀ answer fresh, last (answer ++ fresh) ≤ before answer fresh
  enqueue : ∀ answer first carry queue kind fields,
    tariff.pays (.enqueue settle.run first queue kind fields) + after answer carry ≤ before answer (first :: carry)
  refused : ∀ answer first carry queue kind fields reply, took reply = false → last (answer ++ first :: carry) ≤
    before answer (first :: carry) - tariff.pays (.enqueue settle.run first queue kind fields) +
      tariff.gains (.enqueue settle.run first queue kind fields) reply
  unarmed : ∀ answer carry, last (answer ++ carry) ≤ after answer carry
  preseed : ∀ answer carry job,
    tariff.pays (.preseed settle.run job carry settle.now) + last answer ≤ after answer carry
  unseeded : ∀ answer carry job reply, wrote reply = false → last (answer ++ carry) ≤
    after answer carry - tariff.pays (.preseed settle.run job carry settle.now) +
      tariff.gains (.preseed settle.run job carry settle.now) reply
  comment : ∀ answer, tariff.pays (.comment settle.run answer) ≤ last answer

section Walk
variable {tariff : Tariff Forge} {settle : Settle} {before after : List Entry → List Entry → Nat} {last : List Entry → Nat}

private theorem reply_affords (prices : Prices tariff settle before after last) (late answer : List Entry) :
    (reply settle late answer).Affords tariff (fun _ => 0) (last answer) := by
  unfold reply
  split
  · exact Nat.zero_le _
  · exact ⟨prices.comment answer,fun _ => Nat.zero_le _⟩

private theorem carryOver_affords (prices : Prices tariff settle before after last) (late answer carry : List Entry)
    (job : String) (fields : Json) :
    (carryOver settle late answer carry job fields).Affords tariff (fun _ => 0) (after answer carry) := by
  have paid := prices.preseed answer carry job
  have whole := Program.affords_more (reply_affords prices late (answer ++ carry)) (prices.unarmed answer carry)
  unfold carryOver
  split
  next none =>
    refine Program.affords_more (reply_affords prices late answer) ?_
    omega
  split
  · exact whole
  · refine ⟨by omega,fun reply => ?_⟩
    dsimp only [Program.bind]
    split
    · refine Program.affords_more (reply_affords prices late answer) ?_
      omega
    next other =>
      refine Program.affords_more (reply_affords prices late (answer ++ carry)) (prices.unseeded answer carry job reply ?_)
      unfold wrote
      split
      next same => exact absurd rfl (other _)
      · rfl

private theorem resume_affords (prices : Prices tariff settle before after last) (answer carry : List Entry) (first : Entry) :
    (resume settle first).Affords tariff
      (fun started => if started.isSome then after answer carry else last (answer ++ first :: carry))
      (before answer (first :: carry)) := by
  have unstarted := prices.unstarted answer (first :: carry)
  have read := prices.read
  have free : ∀ gained, last (answer ++ first :: carry) ≤
      before answer (first :: carry) - tariff.pays (.readFallbacks settle.run) + gained := by
    intro gained
    omega
  refine ⟨by omega,fun reply => ?_⟩
  dsimp only [Program.bind]
  split
  · exact free _
  split
  · exact free _
  next fields _ =>
    split
    · exact free _
    split
    · exact free _
    split
    · exact free _
    · have enqueue := prices.enqueue answer first carry
        (queueFor settle.queues (settle.queueName.getD settle.job.queueName)).2 (settle.job.data.field? "kind") fields
      refine ⟨by omega,fun reply => ?_⟩
      dsimp only [Program.bind]
      split
      · change after answer carry ≤ _
        omega
      next other =>
        have refused := prices.refused answer first carry
          (queueFor settle.queues (settle.queueName.getD settle.job.queueName)).2 (settle.job.data.field? "kind") fields reply
        have refused := refused (by
          unfold took
          split
          next same => exact absurd rfl (other _)
          · rfl)
        change last (answer ++ first :: carry) ≤ _
        omega

private theorem onLateForge_affords (prices : Prices tariff settle before after last) (late : List Entry) :
    (onLateForge settle late).Affords tariff (fun _ => 0)
      (before (late.filter fun entry => hopOf entry ≥ 1) (fresh late)) := by
  unfold onLateForge fresh
  split
  · exact Nat.zero_le _
  split
  · exact Nat.zero_le _
  split
  next none =>
    rw [none]
    have unstarted := prices.unstarted (late.filter fun entry => hopOf entry ≥ 1) []
    rw [List.append_nil] at unstarted
    exact Program.affords_more (reply_affords prices ..) unstarted
  next first carry own =>
    rw [own]
    split
    · exact Program.affords_more (reply_affords prices ..) (prices.unstarted _ _)
    · refine Program.affords_bind (resume_affords prices (late.filter fun entry => hopOf entry ≥ 1) carry first) ?_
      intro started
      cases started with
      | none => exact reply_affords prices ..
      | some started => exact carryOver_affords prices ..

private theorem settle_affords (prices : Prices tariff settle before after last) {purse : Nat}
    (close : tariff.pays (.close settle.run settle.targetKey) = 0)
    (closed : ∀ closing : Closing, closing.first → before ((lateForge closing).filter fun entry => hopOf entry ≥ 1)
        (fresh (lateForge closing)) ≤
      purse + tariff.gains (.close settle.run settle.targetKey) (.ok (.closed closing))) :
    (settleInbox settle).Affords tariff (fun _ => 0) purse := by
  unfold settleInbox
  split
  · exact Nat.zero_le _
  split
  · exact Nat.zero_le _
  split
  · exact Nat.zero_le _
  · refine ⟨by omega,fun reply => ?_⟩
    dsimp only [Program.bind]
    split
    next closing =>
      split
      next first =>
        have least := closed closing first
        refine Program.affords_more (onLateForge_affords prices _) ?_
        omega
      · exact Nat.zero_le _
    · exact Nat.zero_le _

end Walk

/-- On every path a settle enqueues at most once. -/
theorem settle_enqueues_once (settle : Settle) : (settleInbox settle).AtMost isEnqueue 1 := by
  have prices : Prices ⟨fun command => if isEnqueue command then 1 else 0,fun _ _ => 0⟩ settle (fun _ _ => 1)
      (fun _ _ => 0) fun _ => 0 := by
    constructor <;> intros <;> simp [isEnqueue]
  exact settle_affords prices rfl fun _ _ => Nat.le_refl _

theorem settle_comments_once (settle : Settle) : (settleInbox settle).AtMost isComment 1 := by
  have prices : Prices ⟨fun command => if isComment command then 1 else 0,fun _ _ => 0⟩ settle (fun _ _ => 1)
      (fun _ _ => 1) fun _ => 1 := by
    constructor <;> intros <;> simp [isComment]
  exact settle_affords prices rfl fun _ _ => Nat.le_refl _

/-- The messages of one id, where the run is the one that is asked for. -/
private def named (run id key : String) (entries : List Entry) : Nat :=
  if key = run then entries.countP fun entry => entry.id = id else 0

private theorem named_append (run id key : String) (left right : List Entry) :
    named run id key (left ++ right) = named run id key left + named run id key right := by
  unfold named
  split
  · exact List.countP_append
  · rfl

private theorem named_cons (run id key : String) (first : Entry) (rest : List Entry) :
    named run id key (first :: rest) = named run id key [first] + named run id key rest :=
  named_append run id key [first] rest

/-- A message is paid for when it is carried; where `both`, also when it is answered, a failed carry being paid back. -/
private def fare (both : Bool) (run id : String) : Tariff Forge where
  pays
    | .enqueue other first _ _ _ => named run id (inboxKey other) [first]
    | .preseed other _ carry _ => named run id (inboxKey other) carry
    | .comment other answer => if both then named run id (inboxKey other) answer else 0
    | _ => 0
  gains
    | .close other _,.ok (.closed closing) =>
      if closing.first then named run id (inboxKey other) (if both then lateForge closing else fresh (lateForge closing)) else 0
    | .enqueue other first _ _ _,reply => if both ∧ took reply = false then named run id (inboxKey other) [first] else 0
    | .preseed other _ carry _,reply => if both ∧ wrote reply = false then named run id (inboxKey other) carry else 0
    | _,_ => 0

private theorem fresh_rest (run id key : String) (late : List Entry) :
    named run id key late = named run id key (late.filter fun entry => hopOf entry ≥ 1) + named run id key (fresh late) := by
  induction late with
  | nil => simp [named,fresh]
  | cons first late ih =>
    rw [named_cons,ih]
    unfold fresh
    rcases Nat.eq_zero_or_pos (hopOf first) with zero | carried
    · have unraised : decide (hopOf first ≥ 1) = false := decide_eq_false (by omega)
      have unheld : decide (hopOf first = 0) = true := decide_eq_true zero
      simp only [List.filter_cons,unraised,unheld,if_true,Bool.false_eq_true,if_false]
      rw [named_cons run id key first (late.filter _)]
      omega
    · have raised : decide (hopOf first ≥ 1) = true := decide_eq_true carried
      have held : decide (hopOf first = 0) = false := decide_eq_false (by omega)
      simp only [List.filter_cons,raised,held,if_true,Bool.false_eq_true,if_false]
      rw [named_cons run id key first (late.filter _)]
      omega

private theorem both_prices (settle : Settle) (run id : String) :
    Prices (fare true run id) settle
      (fun answer fresh => named run id (inboxKey settle.run) (answer ++ fresh))
      (fun answer carry => named run id (inboxKey settle.run) (answer ++ carry))
      (fun answer => named run id (inboxKey settle.run) answer) := by
  constructor
  · rfl
  · exact fun _ _ => Nat.le_refl _
  · intro answer first carry queue kind fields
    simp only [fare,named_append,named_cons run id (inboxKey settle.run) first carry]
    omega
  · intro answer first carry queue kind fields reply refused
    simp only [fare,named_append,named_cons run id (inboxKey settle.run) first carry,refused,and_self,if_true]
    omega
  · exact fun _ _ => Nat.le_refl _
  · intro answer carry job
    simp only [fare,named_append]
    omega
  · intro answer carry job reply unseeded
    simp only [fare,named_append,unseeded,and_self,if_true]
    omega
  · exact fun _ => Nat.le_refl _

private theorem carry_prices (settle : Settle) (run id : String) :
    Prices (fare false run id) settle (fun _ fresh => named run id (inboxKey settle.run) fresh)
      (fun _ carry => named run id (inboxKey settle.run) carry) (fun _ => 0) := by
  constructor
  · rfl
  · exact fun _ _ => Nat.zero_le _
  · intro answer first carry queue kind fields
    simp only [fare,named_cons run id (inboxKey settle.run) first carry]
    omega
  · exact fun _ _ _ _ _ _ _ _ => Nat.zero_le _
  · exact fun _ _ => Nat.zero_le _
  · exact fun _ _ _ => Nat.le_refl _
  · exact fun _ _ _ _ _ => Nat.zero_le _
  · exact fun _ => Nat.le_refl _

private theorem enters_affords (both : Bool) (run id : String) {program : Call (Option Report)} (enters : Enters program) :
    program.Affords (fare both run id) (fun _ => 0) 0 := by
  cases enters with
  | settle settle =>
    cases both with
    | true =>
      refine settle_affords (both_prices settle run id) rfl fun closing first => ?_
      simp only [fare,first,if_true,named_append,fresh_rest run id _ (lateForge closing)]
      omega
    | false =>
      refine settle_affords (carry_prices settle run id) rfl fun closing first => ?_
      simp [fare,first]
  | client other act own => exact ⟨Nat.zero_le _,fun _ => Nat.zero_le _⟩
  | fallbacks other jobs => exact ⟨Nat.zero_le _,fun _ => Nat.zero_le _⟩

/-- What never goes away again. -/
private structure Grows (store store' : Store) : Prop where
  closed : ∀ key, (store.inboxes key).closed = true → (store'.inboxes key).closed = true
  list : ∀ key, ∀ entry ∈ (store.inboxes key).list, entry ∈ (store'.inboxes key).list
  deeds : ∀ deed ∈ store.deeds, deed ∈ store'.deeds

/-- The message is in the closed inbox of its run, and was not carried there. -/
private def Late (last : Store) (run : String) (entry : Entry) : Prop :=
  (last.inboxes run).closed = true ∧ entry ∈ (last.inboxes run).list ∧ hopOf entry = 0

/-- What holds of every store of a run that ends with the last. -/
private structure Sound (last store : Store) : Prop where
  keys : ∀ key, (store.inboxes key).state.keys = (store.inboxes key).list.map Entry.id
  delivered : ∀ key, ∀ entry ∈ (store.inboxes key).list, hopOf entry = 0 → (key,entry.id) ∈ store.delivered
  carriage : ∀ deed ∈ store.deeds, ∀ carriage ∈ deed.carriage, Late last carriage.1 carriage.2
  losses : ∀ run ∈ store.losses, (last.inboxes run).closed = true
  seeded : ∀ run job entry (wrote : Bool), .seeded run job entry wrote ∈ store.deeds →
    ∃ stored ∈ (store.inboxes job).list, stored.id = entry.id ∧ (wrote → stored.hop = some 1)
  jobs : ∀ run first job, .enqueued run first job ∈ store.deeds → ∃ queued ∈ store.jobs, queued.id = job

section Acts
variable (texts : Texts)

private theorem grows_self (store : Store) : Grows store store := ⟨fun _ own => own,fun _ _ own => own,fun _ own => own⟩

private theorem grows_trans {store middle last : Store} (first : Grows store middle) (second : Grows middle last) :
    Grows store last :=
  ⟨fun key own => second.closed key (first.closed key own),fun key entry own => second.list key entry (first.list key entry own),
    fun deed own => second.deeds deed (first.deeds deed own)⟩

private theorem act_own (store : Store) (run : String) (act : Act) :
    (store.act texts run act).2.inboxes (inboxKey run) = (step texts act (store.inbox run)).2 := if_pos rfl

private theorem act_other (store : Store) (run : String) (act : Act) {key : String} (apart : key ≠ inboxKey run) :
    (store.act texts run act).2.inboxes key = store.inboxes key := if_neg apart

private theorem act_grows (store : Store) (run : String) (act : Act) : Grows store (store.act texts run act).2 := by
  refine ⟨fun key closed => ?_,fun key entry member => ?_,fun deed own => own⟩
  · rcases eq_or_ne key (inboxKey run) with rfl | apart
    · rw [act_own,step_closed]
      exact Bool.or_eq_true_iff.mpr (.inl closed)
    · rw [act_other texts store run act apart]
      exact closed
  · rcases eq_or_ne key (inboxKey run) with rfl | apart
    · rw [act_own,(step_grows texts act _).1]
      exact List.mem_append_left _ member
    · rw [act_other texts store run act apart]
      exact member

private theorem act_sound {last store : Store} (sound : Sound last store) (run : String) (act : Act) :
    Sound last (store.act texts run act).2 := by
  have grows := act_grows texts store run act
  refine ⟨fun key => ?_,fun key entry member zero => ?_,sound.carriage,sound.losses,?_,sound.jobs⟩
  · rcases eq_or_ne key (inboxKey run) with rfl | apart
    · rw [act_own,(step_grows texts act _).1,(step_grows texts act _).2,List.map_append]
      exact congrArg (· ++ _) (sound.keys (inboxKey run))
    · rw [act_other texts store run act apart]
      exact sound.keys key
  · rcases eq_or_ne key (inboxKey run) with rfl | apart
    · rw [act_own,(step_grows texts act _).1] at member
      rcases List.mem_append.mp member with old | new
      · exact List.mem_append_right _ (sound.delivered _ entry old zero)
      · refine List.mem_append_left _ (List.mem_map.mpr ⟨entry,?_,rfl⟩)
        exact List.mem_filter.mpr ⟨new,decide_eq_true zero⟩
    · rw [act_other texts store run act apart] at member
      exact List.mem_append_right _ (sound.delivered key entry member zero)
  · intro other job entry wrote deed
    obtain ⟨stored,member,same⟩ := sound.seeded other job entry wrote deed
    exact ⟨stored,grows.list job stored member,same⟩

private theorem carried_from {now : Instant} {seen : List String} {raws : List RawEntry} {batch : List Entry}
    (ok : carried texts now seen raws = .ok batch) :
    (∀ entry ∈ batch, ∃ raw ∈ raws, normalizeSteerEntry texts raw now = .ok entry) ∧
    ∀ raw ∈ raws, raw.id ∈ seen ∨ ∃ entry ∈ batch, entry.id = raw.id := by
  induction raws generalizing seen batch with
  | nil =>
    cases ok
    exact ⟨fun _ none => absurd none List.not_mem_nil,fun _ none => absurd none List.not_mem_nil⟩
  | cons raw raws ih =>
    unfold carried at ok
    obtain ⟨_,_,ok⟩ := passed_bind ok
    obtain ⟨entry,normal,ok⟩ := passed_bind ok
    have own := (normalize_kept texts normal).1
    split at ok
    next present =>
      obtain ⟨from',covers⟩ := ih ok
      refine ⟨fun entry member => ?_,fun other member => ?_⟩
      · obtain ⟨source,among,same⟩ := from' entry member
        exact ⟨source,List.mem_cons_of_mem _ among,same⟩
      · rcases List.mem_cons.mp member with rfl | later
        · exact .inl (own ▸ present)
        · exact covers other later
    · obtain ⟨rest,later,ok⟩ := passed_bind ok
      cases ok
      obtain ⟨from',covers⟩ := ih later
      refine ⟨fun other member => ?_,fun other member => ?_⟩
      · rcases List.mem_cons.mp member with rfl | inside
        · exact ⟨raw,List.mem_cons_self,normal⟩
        · obtain ⟨source,among,same⟩ := from' other inside
          exact ⟨source,List.mem_cons_of_mem _ among,same⟩
      · rcases List.mem_cons.mp member with rfl | inside
        · exact .inr ⟨entry,List.mem_cons_self,own⟩
        · rcases covers other inside with known | ⟨found,among,same⟩
          · rcases List.mem_cons.mp known with head | tail
            · exact .inr ⟨entry,List.mem_cons_self,head.symm⟩
            · exact .inl tail
          · exact .inr ⟨found,List.mem_cons_of_mem _ among,same⟩

/-- After a preseed that was answered, every carried message is in the inbox, with hop 1 if its id was not there. -/
private theorem preseed_stored {inbox : Inbox} (keys : inbox.state.keys = inbox.list.map Entry.id) {carry : List Entry}
    {now : Instant} {number : Nat}
    (answered : (step texts (.preseedInbox (carry.map raised) now) inbox).1 = .preseeded (.ok number)) :
    ∀ entry ∈ carry, ∃ stored ∈ (step texts (.preseedInbox (carry.map raised) now) inbox).2.list, stored.id = entry.id ∧
      ((inbox.state.get? entry.id).isNone → stored.hop = some 1) := by
  intro entry member
  rw [(step_grows texts _ _).1,answered]
  by_cases present : entry.id ∈ inbox.state.keys
  · rw [keys] at present
    obtain ⟨stored,old,same⟩ := List.mem_map.mp present
    refine ⟨stored,List.mem_append_left _ old,same,?_⟩
    intro absent
    rw [Option.isNone_iff_eq_none,Dict.get?_eq_none_iff,keys] at absent
    exact absurd present absent
  · obtain ⟨batch,ok⟩ : ∃ batch, batchOf texts (carry.map raised) now = .ok batch := by
      unfold step at answered
      dsimp only at answered
      split at answered
      · cases answered
      next batch ok => exact ⟨batch,ok⟩
    obtain ⟨_,_,from'⟩ := passed_bind ok
    obtain ⟨sources,covers⟩ := carried_from texts from'
    rcases covers (raised entry) (List.mem_map.mpr ⟨entry,member,rfl⟩) with none | ⟨stored,among,same⟩
    · exact absurd none List.not_mem_nil
    · have same : stored.id = entry.id := same
      refine ⟨stored,List.mem_append_right _ ?_,same,fun _ => ?_⟩
      · simp only [taken,ok]
        refine List.mem_filter.mpr ⟨among,decide_eq_true ?_⟩
        rw [same]
        exact present
      · obtain ⟨raw,source,normal⟩ := sources stored among
        obtain ⟨origin,_,rfl⟩ := List.mem_map.mp source
        exact (normalize_kept texts normal).2.2

variable (forgeJobOf : Option Json → Json → Option String)

private theorem add_same (store : Store) (queue id : String) :
    (store.add queue id).inboxes = store.inboxes ∧ (store.add queue id).delivered = store.delivered ∧
    (store.add queue id).deeds = store.deeds ∧ (store.add queue id).losses = store.losses ∧
    (∀ job ∈ store.jobs, job ∈ (store.add queue id).jobs) ∧ ∃ job ∈ (store.add queue id).jobs, job.id = id := by
  unfold Store.add
  split
  next held =>
    obtain ⟨job,member,same⟩ := List.any_eq_true.mp held
    exact ⟨rfl,rfl,rfl,rfl,fun _ own => own,job,member,(of_decide_eq_true same).2⟩
  · exact ⟨rfl,rfl,rfl,rfl,fun job own => List.mem_cons_of_mem _ own,⟨queue,id⟩,List.mem_cons_self,rfl⟩

private theorem answer_grows (store : Store) (command : Command) :
    Grows store (answer texts forgeJobOf store command).2 := by
  cases command with
  | inbox run act own => exact act_grows texts store run act
  | fallbacksBecome run jobs => exact ⟨fun _ own => own,fun _ _ own => own,fun _ own => own⟩
  | close run targetKey => exact act_grows texts store run _
  | readFallbacks run => exact grows_self store
  | enqueue run first queue kind fields =>
    unfold answer
    dsimp only
    split
    · exact grows_self store
    next job _ =>
      obtain ⟨inboxes,-,deeds,-⟩ := add_same store queue job
      refine ⟨fun key closed => ?_,fun key entry member => ?_,fun deed own => List.mem_cons_of_mem _ own⟩
      · rw [inboxes]
        exact closed
      · rw [inboxes]
        exact member
  | preseed run job carry now =>
    unfold answer
    dsimp only
    split
    · exact grows_self store
    · have grows := act_grows texts store job (.preseedInbox (carry.map raised) now)
      exact ⟨grows.closed,grows.list,fun deed own => List.mem_append_right _ own⟩
  | comment run answer => exact ⟨fun _ own => own,fun _ _ own => own,fun deed own => List.mem_cons_of_mem _ own⟩

private theorem served_grows {store store' : Store} {command : Command} {reply : Except Fault command.Carrier}
    (served : MayFail (answer texts forgeJobOf) (unanswered texts forgeJobOf) loses anyCall store command reply store') :
    Grows store store' := by
  have grows := answer_grows texts forgeJobOf store command
  obtain ⟨-,⟨-,rfl⟩ | ⟨-,_,-,rfl | rfl⟩⟩ := served
  · exact grows
  · exact grows_self _
  · exact ⟨grows.closed,grows.list,grows.deeds⟩

end Acts

section Programs
variable (last : Store)

/-- A settle carries late messages alone, and is told of what stands by the end. -/
private def settleContract : Contract Forge where
  asks
    | .enqueue run first _ _ _ => Late last (inboxKey run) first
    | .preseed run _ carry _ => (last.inboxes (inboxKey run)).closed = true ∧ ∀ entry ∈ carry, Late last (inboxKey run) entry
    | _ => True
  told command reply := match command, reply with
    | .close run _, .ok (.closed closing) => (last.inboxes (inboxKey run)).closed = true ∧
        ∀ entry ∈ closing.entries, entry ∈ (last.inboxes (inboxKey run)).list
    | .enqueue run first _ _ _, .ok (some job) => .enqueued (inboxKey run) first job ∈ last.deeds
    | .preseed run job carry _, .ok (.preseeded (.ok _)) => ∀ entry ∈ carry, ∃ wrote : Bool,
        .seeded (inboxKey run) (inboxKey job) entry wrote ∈ last.deeds
    | .comment run answer, reply => reply = .ok () ∧ .commented (inboxKey run) answer ∈ last.deeds
    | _, _ => True

/-- The message is done with, by the deeds of the end. -/
private def Done (run : String) (late : List Entry) (entry : Entry) : Prop :=
  ((fresh late).head? = some entry ∧ ∃ job, .enqueued (inboxKey run) entry job ∈ last.deeds) ∨
  (∃ first job, .enqueued (inboxKey run) first job ∈ last.deeds ∧ ∃ wrote : Bool,
    .seeded (inboxKey run) (inboxKey job) entry wrote ∈ last.deeds) ∨
  ∃ answer, .commented (inboxKey run) answer ∈ last.deeds ∧ entry ∈ answer

private def Accounted (result : Option Report) : Prop :=
  ∀ report ∈ result, ∀ entry ∈ report.late, Done last report.run report.late entry

variable {last} {settle : Settle}

private theorem reply_accounts {late answer : List Entry}
    (rest : ∀ entry ∈ late, entry ∈ answer ∨ Done last settle.run late entry) :
    (reply settle late answer).Keeps (settleContract last) (Accounted last) := by
  unfold reply
  split
  next none =>
    rintro _ ⟨rfl⟩ entry member
    rcases rest entry member with answered | done
    · rw [none] at answered
      cases answered
    · exact done
  · refine ⟨trivial,fun _ told => ?_⟩
    rintro _ ⟨rfl⟩ entry member
    rcases rest entry member with answered | done
    · exact .inr (.inr ⟨answer,told.2,answered⟩)
    · exact done

private theorem carryOver_accounts {late answer carry : List Entry} {first : Entry} {job : String} (fields : Json)
    (waits : ∀ entry ∈ carry, Late last (inboxKey settle.run) entry)
    (closed : (last.inboxes (inboxKey settle.run)).closed = true)
    (began : .enqueued (inboxKey settle.run) first job ∈ last.deeds)
    (rest : ∀ entry ∈ late, entry ∈ answer ∨ entry ∈ carry ∨ Done last settle.run late entry) :
    (carryOver settle late answer carry job fields).Keeps (settleContract last) (Accounted last) := by
  have whole : (reply settle late (answer ++ carry)).Keeps (settleContract last) (Accounted last) := by
    refine reply_accounts fun entry member => ?_
    rcases rest entry member with answered | carried | done
    · exact .inl (List.mem_append_left _ answered)
    · exact .inl (List.mem_append_right _ carried)
    · exact .inr done
  unfold carryOver
  split
  next none =>
    subst none
    refine reply_accounts fun entry member => ?_
    rcases rest entry member with answered | carried | done
    · exact .inl answered
    · cases carried
    · exact .inr done
  split
  · exact whole
  · refine ⟨⟨closed,waits⟩,fun reply told => ?_⟩
    dsimp only [Program.bind]
    split
    · refine reply_accounts fun entry member => ?_
      rcases rest entry member with answered | carried | done
      · exact .inl answered
      · exact .inr (.inr (.inl ⟨first,job,began,told entry carried⟩))
      · exact .inr done
    · exact whole

private theorem resume_keeps {first : Entry} (waits : Late last (inboxKey settle.run) first) :
    (resume settle first).Keeps (settleContract last) fun started => ∀ own ∈ started,
      .enqueued (inboxKey settle.run) first own.1 ∈ last.deeds := by
  have none : ∀ own ∈ (none : Option (String × Json)), Deed.enqueued (inboxKey settle.run) first own.1 ∈ last.deeds := by
    intro own member
    cases member
  refine ⟨trivial,fun reply _ => ?_⟩
  dsimp only [Program.bind]
  split
  · exact none
  split
  · exact none
  split
  · exact none
  split
  · exact none
  split
  · exact none
  · refine ⟨waits,fun reply told => ?_⟩
    dsimp only [Program.bind]
    split
    · rintro _ ⟨rfl⟩
      exact told
    · exact none

private theorem onLateForge_accounts {late : List Entry} (closed : (last.inboxes (inboxKey settle.run)).closed = true)
    (members : ∀ entry ∈ late, entry ∈ (last.inboxes (inboxKey settle.run)).list) :
    (onLateForge settle late).Keeps (settleContract last) (Accounted last) := by
  have split' : ∀ entry ∈ late, entry ∈ (late.filter fun entry => hopOf entry ≥ 1) ∨ entry ∈ fresh late := by
    intro entry member
    rcases Nat.eq_zero_or_pos (hopOf entry) with zero | carried
    · exact .inr (List.mem_filter.mpr ⟨member,decide_eq_true zero⟩)
    · exact .inl (List.mem_filter.mpr ⟨member,decide_eq_true carried⟩)
  have waits : ∀ entry ∈ fresh late, Late last (inboxKey settle.run) entry := by
    intro entry member
    obtain ⟨inside,zero⟩ := List.mem_filter.mp member
    exact ⟨closed,members entry inside,of_decide_eq_true zero⟩
  unfold onLateForge
  split
  next none =>
    rintro _ ⟨rfl⟩ entry member
    rw [none] at member
    cases member
  split
  · rintro _ ⟨⟩
  split
  next none =>
    refine reply_accounts fun entry member => ?_
    rcases split' entry member with answered | held
    · exact .inl answered
    · have held : entry ∈ late.filter fun entry => hopOf entry = 0 := held
      rw [none] at held
      cases held
  next first carry own =>
    have own : fresh late = first :: carry := own
    have whole : (reply settle late ((late.filter fun entry => hopOf entry ≥ 1) ++ first :: carry)).Keeps
        (settleContract last) (Accounted last) := by
      refine reply_accounts fun entry member => .inl ?_
      rw [← own]
      exact List.mem_append.mpr (split' entry member)
    rw [own] at waits
    split
    · exact whole
    · refine Program.keeps_bind (resume_keeps (waits first List.mem_cons_self)) fun started told => ?_
      cases started with
      | none => exact whole
      | some started =>
        have began := told started rfl
        refine carryOver_accounts started.2 (fun entry member => waits entry (List.mem_cons_of_mem _ member)) closed began ?_
        intro entry member
        rcases split' entry member with answered | held
        · exact .inl answered
        · rw [own] at held
          rcases List.mem_cons.mp held with rfl | carried
          · exact .inr (.inr (.inl ⟨by rw [own]; rfl,started.1,began⟩))
          · exact .inr (.inl carried)

private theorem settle_accounts (settle : Settle) :
    (settleInbox settle).Keeps (settleContract last) (Accounted last) := by
  have none : Accounted last none := by
    rintro _ ⟨⟩
  unfold settleInbox
  split
  · exact none
  split
  · exact none
  split
  · exact none
  · refine ⟨trivial,fun reply told => ?_⟩
    dsimp only [Program.bind]
    split
    next closing =>
      split
      · exact onLateForge_accounts told.1 fun entry member => told.2 entry (List.mem_of_mem_filter member)
      · exact none
    · exact none

private theorem enters_accounts {program : Call (Option Report)} (enters : Enters program) :
    program.Keeps (settleContract last) (Accounted last) := by
  cases enters with
  | settle settle => exact settle_accounts settle
  | client run act own => exact ⟨trivial,fun _ _ => by rintro _ ⟨⟩⟩
  | fallbacks run jobs => exact ⟨trivial,fun _ _ => by rintro _ ⟨⟩⟩

end Programs

section Steps
variable (texts : Texts) (forgeJobOf : Option Json → Json → Option String)

private theorem close_step {inbox : Inbox} {targetKey : Option String} {closing : Closing}
    (answered : (step texts (.closeInbox targetKey) inbox).1 = .closed closing) :
    closing = (CLOSE_SCRIPT inbox).1 ∧ (step texts (.closeInbox targetKey) inbox).2 = (CLOSE_SCRIPT inbox).2 := by
  unfold step at answered ⊢
  dsimp only at answered ⊢
  split at answered
  · cases answered
  next usable =>
    rw [if_neg usable]
    exact ⟨(SteerInbox.Answer.closed.inj answered).symm,rfl⟩

private theorem seededDeeds_from {run job : String} {carry : List Entry} {before : Inbox} {reply : SteerInbox.Answer}
    {deed : Deed} (member : deed ∈ seededDeeds run job carry before reply) :
    (∃ number, reply = .preseeded (.ok number)) ∧
    ∃ entry ∈ carry, deed = .seeded run job entry (before.state.get? entry.id).isNone := by
  unfold seededDeeds at member
  split at member
  next number =>
    obtain ⟨entry,inside,rfl⟩ := List.mem_map.mp member
    exact ⟨⟨number,rfl⟩,entry,inside,rfl⟩
  · cases member

private theorem answer_sound {last store : Store} {command : Command} (sound : Sound last store)
    (asks : (settleContract last).asks command) : Sound last (answer texts forgeJobOf store command).2 := by
  cases command with
  | inbox run act own => exact act_sound texts sound run act
  | fallbacksBecome run jobs =>
    exact ⟨sound.keys,sound.delivered,sound.carriage,sound.losses,sound.seeded,sound.jobs⟩
  | close run targetKey => exact act_sound texts sound run _
  | readFallbacks run => exact sound
  | enqueue run first queue kind fields =>
    unfold answer
    dsimp only
    split
    · exact sound
    next job _ =>
      obtain ⟨inboxes,delivered,deeds,losses,jobs,own⟩ := add_same store queue job
      refine ⟨?_,?_,fun deed member => ?_,?_,?_,?_⟩
      · rw [inboxes]
        exact sound.keys
      · rw [inboxes,delivered]
        exact sound.delivered
      · rcases List.mem_cons.mp member with rfl | old
        · rintro _ ⟨rfl⟩
          exact asks
        · exact sound.carriage deed (deeds ▸ old)
      · rw [losses]
        exact sound.losses
      · intro other target entry wrote member
        rw [inboxes]
        rcases List.mem_cons.mp member with new | old
        · cases new
        · exact sound.seeded other target entry wrote (deeds ▸ old)
      · intro other entry target member
        rcases List.mem_cons.mp member with new | old
        · cases new
          exact own
        · obtain ⟨queued,among,same⟩ := sound.jobs other entry target (deeds ▸ old)
          exact ⟨queued,jobs queued among,same⟩
  | preseed run job carry now =>
    unfold answer
    dsimp only
    split
    · exact sound
    · have acted := act_sound texts sound job (.preseedInbox (carry.map raised) now)
      refine ⟨acted.keys,acted.delivered,fun deed member => ?_,acted.losses,?_,?_⟩
      · rcases List.mem_append.mp member with new | old
        · obtain ⟨-,entry,inside,rfl⟩ := seededDeeds_from new
          rintro _ ⟨rfl⟩
          exact asks.2 entry inside
        · exact acted.carriage deed old
      · intro other target entry wrote member
        rcases List.mem_append.mp member with new | old
        · obtain ⟨⟨number,answered⟩,origin,inside,same⟩ := seededDeeds_from new
          obtain ⟨rfl,rfl,rfl,rfl⟩ := Deed.seeded.inj same
          obtain ⟨stored,among,own,hop⟩ := preseed_stored texts (sound.keys (inboxKey job)) answered entry inside
          refine ⟨stored,?_,own,hop⟩
          have moved := act_own texts store job (.preseedInbox (carry.map raised) now)
          dsimp only
          rw [moved]
          exact among
        · exact acted.seeded other target entry wrote old
      · intro other entry target member
        rcases List.mem_append.mp member with new | old
        · obtain ⟨-,_,_,wrong⟩ := seededDeeds_from new
          cases wrong
        · exact acted.jobs other entry target old
  | comment run answer =>
    refine ⟨sound.keys,sound.delivered,fun deed member => ?_,sound.losses,?_,?_⟩
    · rcases List.mem_cons.mp member with rfl | old
      · rintro _ ⟨⟩
      · exact sound.carriage deed old
    · intro other target entry wrote member
      rcases List.mem_cons.mp member with new | old
      · cases new
      · exact sound.seeded other target entry wrote old
    · intro other entry target member
      rcases List.mem_cons.mp member with new | old
      · cases new
      · exact sound.jobs other entry target old

private theorem doubts_closed {last : Store} {command : Command} (asks : (settleContract last).asks command) :
    ∀ run ∈ command.doubts, (last.inboxes run).closed = true := by
  intro run member
  cases command with
  | enqueue =>
    rw [List.mem_singleton.mp member]
    exact asks.1
  | preseed =>
    rw [List.mem_singleton.mp member]
    exact asks.1
  | _ => cases member

private theorem answer_told {last store : Store} {command : Command} (later : Grows (answer texts forgeJobOf store command).2 last) :
    (settleContract last).told command (.ok (answer texts forgeJobOf store command).1) := by
  cases command with
  | close run targetKey =>
    generalize same : (answer texts forgeJobOf store (.close run targetKey)).1 = reply
    cases reply with
    | closed closing =>
      obtain ⟨rfl,next⟩ := close_step texts same
      have own := act_own texts store run (.closeInbox targetKey)
      rw [next] at own
      constructor
      · refine later.closed _ ?_
        change ((store.act texts run (.closeInbox targetKey)).2.inboxes (inboxKey run)).closed = true
        rw [own]
        rfl
      · intro entry member
        refine later.list _ entry ?_
        change entry ∈ ((store.act texts run (.closeInbox targetKey)).2.inboxes (inboxKey run)).list
        rw [own]
        exact member
    | _ => trivial
  | enqueue run first queue kind fields =>
    unfold answer at later ⊢
    dsimp only at later ⊢
    split
    · trivial
    next job made =>
      rw [made] at later
      exact later.deeds _ List.mem_cons_self
  | preseed run job carry now =>
    unfold answer at later ⊢
    dsimp only at later ⊢
    split
    · trivial
    next usable =>
      rw [if_neg usable] at later
      generalize same : (store.act texts job (.preseedInbox (carry.map raised) now)).1 = reply at later ⊢
      cases reply with
      | preseeded outcome =>
        cases outcome with
        | ok number =>
          intro entry member
          refine ⟨((store.inbox job).state.get? entry.id).isNone,later.deeds _ (List.mem_append_left _ ?_)⟩
          exact List.mem_map.mpr ⟨entry,member,rfl⟩
        | _ => trivial
      | _ => trivial
  | comment run answer => exact ⟨rfl,later.deeds _ List.mem_cons_self⟩
  | _ => trivial

private theorem served_keeps {last store store' : Store} {command : Command} {reply : Except Fault command.Carrier}
    (later : Grows store' last) (sound : Sound last store) (asks : (settleContract last).asks command)
    (served : MayFail (answer texts forgeJobOf) (unanswered texts forgeJobOf) loses anyCall store command reply store') :
    Sound last store' ∧ (settleContract last).told command reply := by
  have answered := answer_sound texts forgeJobOf sound asks
  obtain ⟨-,⟨rfl,rfl⟩ | ⟨losing,fault,rfl,rest⟩⟩ := served
  · exact ⟨answered,answer_told texts forgeJobOf later⟩
  · refine ⟨?_,by cases command <;> trivial⟩
    rcases rest with rfl | rfl
    · exact sound
    · refine ⟨answered.keys,answered.delivered,answered.carriage,?_,answered.seeded,answered.jobs⟩
      intro run member
      rcases List.mem_append.mp member with doubt | old
      · exact doubts_closed asks run doubt
      · exact sound.losses run old

/-- A run's open inbox is worth one carry or answer of each message; where `both`, a run in doubt is worth nothing. -/
private def worth (both : Bool) (run id : String) (store : Store) : Nat :=
  if both ∧ run ∈ store.losses then 0
  else store.carried run id + (if both then store.answered run id else 0) + (if (store.inboxes run).closed then 0 else 1)

private theorem client_open {act : Act} (own : isClient act) (inbox : Inbox) :
    isClose (act,(step texts act inbox).1) = false := by
  unfold step
  cases act with
  | closeInbox => exact own.elim
  | _ =>
    dsimp only
    repeat' split
    all_goals rfl

private theorem act_worth (both : Bool) (run id : String) (store : Store) (other : String) (act : Act)
    (closed : run = inboxKey other → (step texts act (store.inbox other)).2.closed = (store.inbox other).closed) :
    worth both run id (store.act texts other act).2 = worth both run id store := by
  have same : ((store.act texts other act).2.inboxes run).closed = (store.inboxes run).closed := by
    rcases eq_or_ne run (inboxKey other) with rfl | apart
    · rw [act_own]
      exact closed rfl
    · rw [act_other texts store other act apart]
  unfold worth Store.carried Store.answered
  rw [same]
  rfl

private theorem preseed_open (carry : List RawEntry) (now : Instant) (inbox : Inbox) :
    (step texts (.preseedInbox carry now) inbox).2.closed = inbox.closed := by
  have own : isClient (.preseedInbox carry now) := trivial
  rw [step_closed,client_open texts own,Bool.or_false]

private theorem countP_seeded (run id key job : String) (before : Inbox) (carry : List Entry) (number : Nat) :
    ((seededDeeds key job carry before (.preseeded (.ok number))).countP fun deed =>
      deed.carriage.any fun carriage => carriage.1 = run ∧ carriage.2.id = id) = named run id key carry := by
  unfold seededDeeds named
  rw [List.countP_map]
  split
  next same => simp [Deed.carriage,Function.comp_def,same]
  next apart => simp [Deed.carriage,Function.comp_def,apart]

private theorem answers_seeded (run id key job : String) (before : Inbox) (carry : List Entry) (reply : SteerInbox.Answer) :
    ((seededDeeds key job carry before reply).map (Deed.answers run id)).sum = 0 := by
  unfold seededDeeds
  split
  · rw [List.map_map]
    simp [Function.comp_def,Deed.answers]
  · rfl

/-- Deeds are worth what they carry and, where `both`, what they answer. -/
private theorem worth_deeds (both : Bool) (run id : String) (store : Store) (more : List Deed) :
    worth both run id { store with deeds := more ++ store.deeds } ≤ worth both run id store +
      (more.countP fun deed => deed.carriage.any fun carriage => carriage.1 = run ∧ carriage.2.id = id) +
      (if both then (more.map (Deed.answers run id)).sum else 0) := by
  unfold worth Store.carried Store.answered
  dsimp only
  rw [List.countP_append,List.map_append,List.sum_append]
  split
  · omega
  · split <;> omega

private theorem worth_doubts (both : Bool) (run id : String) (store : Store) (more : List String) :
    worth both run id { store with losses := more ++ store.losses } ≤ worth both run id store := by
  unfold worth
  split
  · exact Nat.zero_le _
  next certain =>
    have before : ¬(both ∧ run ∈ store.losses) := fun doubt => certain ⟨doubt.1,List.mem_append_right _ doubt.2⟩
    rw [if_neg before]
    exact Nat.le_refl _

private theorem closing_once {store : Store} (sound : Sound store store) (run id : String) (some' : Entry → Bool) :
    (((lateForge (CLOSE_SCRIPT (store.inbox run)).1).filter some').countP fun entry => entry.id = id) ≤ 1 := by
  have distinct : ((store.inbox run).list.map Entry.id).Nodup := by
    have keys := sound.keys (inboxKey run)
    exact keys ▸ (store.inbox run).state.distinct
  have inside : ((lateForge (CLOSE_SCRIPT (store.inbox run)).1).filter some').Sublist (store.inbox run).list :=
    List.filter_sublist.trans List.filter_sublist
  have once := List.nodup_iff_count_le_one.mp (distinct.sublist (inside.map Entry.id)) id
  rw [List.count,List.countP_map] at once
  refine Nat.le_trans (Nat.le_of_eq (List.countP_congr fun entry _ => ?_)) once
  simp

private theorem close_metered {store : Store} (sound : Sound store store) (both : Bool) (run id : String) (other : String)
    (targetKey : Option String) :
    worth both run id (store.act texts other (.closeInbox targetKey)).2 +
      (fare both run id).gains (.close other targetKey) (.ok (store.act texts other (.closeInbox targetKey)).1) ≤
    worth both run id store := by
  have shut := step_closed texts (.closeInbox targetKey) (store.inbox other)
  generalize same : (store.act texts other (.closeInbox targetKey)).1 = reply
  have same : (step texts (.closeInbox targetKey) (store.inbox other)).1 = reply := same
  rw [same] at shut
  cases reply with
  | closed closing =>
    obtain ⟨rfl,next⟩ := close_step texts same
    cases open' : (store.inbox other).closed with
    | true =>
      have unmoved := act_worth texts both run id store other (.closeInbox targetKey) fun _ => by rw [shut,open']; rfl
      have second : (CLOSE_SCRIPT (store.inbox other)).1.first = false := congrArg not open'
      simp only [fare,second,Bool.false_eq_true,if_false]
      omega
    | false =>
      rcases eq_or_ne run (inboxKey other) with rfl | apart
      · have certain : ¬(both = true ∧ inboxKey other ∈ store.losses) := by
          rintro ⟨-,doubt⟩
          have closed := sound.losses _ doubt
          exact absurd (closed.symm.trans open') (by decide)
        have before : worth both (inboxKey other) id store = store.carried (inboxKey other) id +
            (if both then store.answered (inboxKey other) id else 0) + 1 := by
          have still : (store.inboxes (inboxKey other)).closed = false := open'
          unfold worth
          rw [if_neg certain,still]
          rfl
        have after : worth both (inboxKey other) id (store.act texts other (.closeInbox targetKey)).2 =
            store.carried (inboxKey other) id + (if both then store.answered (inboxKey other) id else 0) := by
          unfold worth
          rw [if_neg (by exact certain),act_own,next]
          rfl
        have most : (fare both (inboxKey other) id).gains (.close other targetKey)
            (.ok (.closed (CLOSE_SCRIPT (store.inbox other)).1)) ≤ 1 := by
          unfold fare named
          dsimp only
          split
          · rw [if_pos rfl]
            cases both with
            | true =>
              have once := closing_once sound other id fun _ => true
              rw [List.filter_eq_self.mpr fun _ _ => rfl] at once
              exact once
            | false => exact closing_once sound other id fun entry => hopOf entry = 0
          · exact Nat.zero_le _
        omega
      · have unmoved := act_worth texts both run id store other (.closeInbox targetKey) fun same => absurd same apart
        have none : (fare both run id).gains (.close other targetKey)
            (.ok (.closed (CLOSE_SCRIPT (store.inbox other)).1)) = 0 := by
          simp [fare,named,apart.symm]
        omega
  | _ =>
    have unmoved := act_worth texts both run id store other (.closeInbox targetKey) fun _ => by
      rw [shut]
      exact Bool.or_false _
    exact Nat.le_of_eq unmoved

private theorem answer_metered {store : Store} (sound : Sound store store) (both : Bool) (run id : String) (command : Command) :
    worth both run id (answer texts forgeJobOf store command).2 +
      (fare both run id).gains command (.ok (answer texts forgeJobOf store command).1) ≤
    worth both run id store + (fare both run id).pays command := by
  cases command with
  | inbox other act own =>
    refine Nat.le_of_eq (act_worth texts both run id store other act fun _ => ?_)
    rw [step_closed,client_open texts own,Bool.or_false]
  | fallbacksBecome other jobs => exact Nat.le_refl _
  | close other targetKey => exact close_metered texts sound both run id other targetKey
  | readFallbacks other => exact Nat.le_refl _
  | enqueue other first queue kind fields =>
    unfold answer
    dsimp only
    split
    · dsimp only [fare]
      split <;> omega
    next job _ =>
      obtain ⟨inboxes,-,deeds,losses,-⟩ := add_same store queue job
      have same : worth both run id (store.add queue job) = worth both run id store := by
        unfold worth Store.carried Store.answered
        rw [inboxes,deeds,losses]
      have more := worth_deeds both run id (store.add queue job) [.enqueued (inboxKey other) first job]
      have price : ([Deed.enqueued (inboxKey other) first job].countP fun deed =>
          deed.carriage.any fun carriage => carriage.1 = run ∧ carriage.2.id = id) = named run id (inboxKey other) [first] := by
        unfold named
        split
        next same => simp [Deed.carriage,same,List.countP_cons]
        next apart => simp [Deed.carriage,apart]
      have free : ([Deed.enqueued (inboxKey other) first job].map (Deed.answers run id)).sum = 0 := rfl
      rw [price,free,deeds,same] at more
      simp only [fare,took,Bool.true_eq_false,and_false,if_false]
      simp only [ite_self,List.singleton_append] at more
      exact more
  | preseed other job carry now =>
    unfold answer
    dsimp only
    split
    · dsimp only [fare]
      split <;> omega
    · have same := act_worth texts both run id store job (.preseedInbox (carry.map raised) now) fun _ =>
        preseed_open texts _ now _
      generalize reply_same : (store.act texts job (.preseedInbox (carry.map raised) now)).1 = reply
      have more := worth_deeds both run id (store.act texts job (.preseedInbox (carry.map raised) now)).2
        (seededDeeds (inboxKey other) (inboxKey job) carry (store.inbox job) reply)
      rw [same,answers_seeded] at more
      simp only [ite_self] at more
      have deeds : (store.act texts job (.preseedInbox (carry.map raised) now)).2.deeds = store.deeds := rfl
      rw [deeds] at more
      cases answered : wrote (.ok reply) with
      | true =>
        have shape : ∃ number, reply = .preseeded (.ok number) := by
          unfold wrote at answered
          split at answered
          next number same => exact ⟨number,Except.ok.inj same⟩
          · cases answered
        obtain ⟨number,rfl⟩ := shape
        rw [countP_seeded] at more
        simp only [fare,answered,Bool.true_eq_false,and_false,if_false]
        exact more
      | false =>
        have none : seededDeeds (inboxKey other) (inboxKey job) carry (store.inbox job) reply = [] := by
          unfold seededDeeds
          split
          · cases answered
          · rfl
        rw [none] at more ⊢
        simp only [fare,answered,and_true]
        simp only [List.countP_nil,List.nil_append] at more ⊢
        split <;> omega
  | comment other answer =>
    have more := worth_deeds both run id store [.commented (inboxKey other) answer]
    have free : ([Deed.commented (inboxKey other) answer].countP fun deed =>
        deed.carriage.any fun carriage => carriage.1 = run ∧ carriage.2.id = id) = 0 := rfl
    have price : ([Deed.commented (inboxKey other) answer].map (Deed.answers run id)).sum = named run id (inboxKey other) answer := rfl
    rw [free,price] at more
    exact more

private theorem answer_losses (store : Store) (command : Command) :
    (answer texts forgeJobOf store command).2.losses = store.losses := by
  cases command with
  | enqueue run first queue kind fields =>
    unfold answer
    dsimp only
    split
    · rfl
    next job _ => exact (add_same store queue job).2.2.2.1
  | preseed run job carry now =>
    unfold answer
    dsimp only
    split <;> rfl
  | _ => rfl

private theorem unanswered_worth (both : Bool) (run id : String) (store : Store) (command : Command) :
    worth both run id (unanswered texts forgeJobOf store command) ≤ worth both run id (answer texts forgeJobOf store command).2 ∧
    (both = true → run ∈ command.doubts → worth both run id (unanswered texts forgeJobOf store command) = 0) := by
  have doubts := worth_doubts both run id (answer texts forgeJobOf store command).2 command.doubts
  rw [answer_losses] at doubts
  refine ⟨doubts,fun own doubt => if_pos ⟨own,List.mem_append_left _ doubt⟩⟩

/-- A lost answer hands back at most what was paid, and that only where both are counted. -/
private theorem fault_gains (both : Bool) (run id : String) (command : Command) (fault : Fault) :
    (fare both run id).gains command (.error fault) ≤ (fare both run id).pays command ∧
    ((fare both run id).gains command (.error fault) = 0 ∨ both = true ∧ run ∈ command.doubts) := by
  cases command with
  | enqueue other first queue kind fields =>
    rcases eq_or_ne (inboxKey other) run with same | apart
    · cases both with
      | true => exact ⟨by simp [fare,took],.inr ⟨rfl,List.mem_singleton.mpr same.symm⟩⟩
      | false => exact ⟨by simp [fare],.inl (by simp [fare])⟩
    · exact ⟨by simp [fare,named,apart],.inl (by simp [fare,named,apart])⟩
  | preseed other job carry now =>
    rcases eq_or_ne (inboxKey other) run with same | apart
    · cases both with
      | true => exact ⟨by simp [fare,wrote],.inr ⟨rfl,List.mem_singleton.mpr same.symm⟩⟩
      | false => exact ⟨by simp [fare],.inl (by simp [fare])⟩
    · exact ⟨by simp [fare,named,apart],.inl (by simp [fare,named,apart])⟩
  | _ => exact ⟨Nat.zero_le _,.inl rfl⟩

private theorem served_metered {store store' : Store} {command : Command} {reply : Except Fault command.Carrier}
    (sound : Sound store store) (both : Bool) (run id : String)
    (served : MayFail (answer texts forgeJobOf) (unanswered texts forgeJobOf) loses anyCall store command reply store') :
    worth both run id store' + (fare both run id).gains command reply ≤ worth both run id store + (fare both run id).pays command := by
  have answered := answer_metered texts forgeJobOf sound both run id command
  obtain ⟨-,⟨rfl,rfl⟩ | ⟨losing,fault,rfl,rest⟩⟩ := served
  · exact answered
  · obtain ⟨back,none⟩ := fault_gains both run id command fault
    rcases rest with rfl | rfl
    · omega
    · obtain ⟨less,gone⟩ := unanswered_worth texts forgeJobOf both run id store command
      rcases none with none | ⟨own,doubt⟩
      · omega
      · have gone := gone own doubt
        omega

variable {texts forgeJobOf}

/-- What every reachable store keeps, and what every finished settle has accounted for. -/
private theorem settles_sound {world : World Store (Call (Option Report))}
    (reached : Reachable (settles texts forgeJobOf) .start world) :
    Sound world.store world.store ∧
      ∀ program ∈ world.agents, program.Keeps (settleContract world.store) (Accounted world.store) := by
  refine callers_keep (settleContract world.store) (Accounted world.store) (Sound world.store)
    (fun store => Grows store world.store) ?_ (fun _ enters => enters_accounts enters) ?_ ?_ reached (grows_self _)
  · exact fun _ _ _ _ served later => grows_trans (served_grows texts forgeJobOf served) later
  · exact fun _ _ _ _ later sound asks served => served_keeps texts forgeJobOf later sound asks served
  · refine ⟨fun _ => rfl,?_,?_,?_,?_,?_⟩
    · exact fun _ _ none => absurd none List.not_mem_nil
    · exact fun _ none => absurd none List.not_mem_nil
    · exact fun _ none => absurd none List.not_mem_nil
    · exact fun _ _ _ _ none => absurd none List.not_mem_nil
    · exact fun _ _ _ none => absurd none List.not_mem_nil

private theorem worth_bounded {world : World Store (Call (Option Report))} (both : Bool) (run id : String)
    (reached : Reachable (settles texts forgeJobOf) .start world) : worth both run id world.store ≤ 1 := by
  refine Nat.le_trans (callers_afford (fare both run id) (worth both run id)
    (fun _ enters => enters_affords both run id enters) ?_ reached) (by cases both <;> simp [worth,Store.start,Store.carried,Store.answered,Inbox.empty])
  exact fun world store' command answer before served =>
    served_metered texts forgeJobOf (settles_sound before).1 both run id served

end Steps

/-- A late forge message is carried or answered: in every interleaving of settles, clients and faults each late message
of a finished settle began the enqueued job, is in that job's inbox since its preseed, or is covered by the comment. A
settle enqueues once and comments once at most; where it lost no answer it does not both carry and answer a message; it
never carries what was carried to it, so that a message delivered to one run is carried once at most by all runs. -/
theorem late_forge_settled (texts : Texts) (forgeJobOf : Option Json → Json → Option String)
    {world : World Store (Call (Option Report))} (reached : Reachable (settles texts forgeJobOf) .start world) :
    (∀ settle, (settleInbox settle).AtMost isEnqueue 1 ∧ (settleInbox settle).AtMost isComment 1) ∧
    (∀ report, .done (some report) ∈ world.agents → ∀ entry ∈ report.late,
      Began world.store report entry ∨ Carried world.store report entry ∨ Answered world.store report entry) ∧
    (∀ run ∉ world.store.losses, ∀ id, world.store.carried run id + world.store.answered run id ≤ 1) ∧
    (∀ deed ∈ world.store.deeds, ∀ carriage ∈ deed.carriage, hopOf carriage.2 = 0) ∧
    (∀ run id, world.store.carried run id ≤ 1) ∧
    ∀ run id, (∀ other, (other,id) ∈ world.store.delivered → other = run) → world.store.carriedAnywhere id ≤ 1 := by
  obtain ⟨sound,accounts⟩ := settles_sound reached
  have once : ∀ run id, world.store.carried run id ≤ 1 := by
    intro run id
    have bound := worth_bounded false run id reached
    simp only [worth,Bool.false_eq_true,false_and,if_false] at bound
    omega
  refine ⟨fun settle => ⟨settle_enqueues_once settle,settle_comments_once settle⟩,?_,?_,?_,once,?_⟩
  · intro report finished entry member
    rcases accounts _ finished report rfl entry member with ⟨first,job,deed⟩ | ⟨first,job,deed,wrote,seeded⟩ | answered
    · exact .inl ⟨first,job,deed,sound.jobs _ _ _ deed⟩
    · exact .inr (.inl ⟨first,job,deed,wrote,seeded,sound.seeded _ _ _ _ seeded⟩)
    · exact .inr (.inr answered)
  · intro run certain id
    have bound := worth_bounded true run id reached
    have certain : ¬(true = true ∧ run ∈ world.store.losses) := fun doubt => certain doubt.2
    unfold worth at bound
    rw [if_neg certain,if_pos rfl] at bound
    omega
  · exact fun deed member carriage own => (sound.carriage deed member carriage own).2.2
  · intro run id only
    refine Nat.le_trans (List.countP_mono_left fun deed member own => ?_) (once run id)
    obtain ⟨carriage,among,same⟩ := (Option.any_eq_true _ _).mp own
    obtain ⟨-,inside,zero⟩ := sound.carriage deed member carriage among
    have same := of_decide_eq_true same
    have delivered := sound.delivered carriage.1 carriage.2 inside zero
    rw [same] at delivered
    exact (Option.any_eq_true _ _).mpr ⟨carriage,among,decide_eq_true ⟨only _ delivered,same⟩⟩

section Samples

def comment (letter : String) : RawEntry where
  id := "0000000000000000000000000000000" ++ letter
  mode := "steer"
  source := "forge"
  author := .forge "42" "MEMBER"
  text := some "also update the changelog"
  at' := some 1000
  deliveryId := none
  hop := none

def issue (fields : List (String × Json)) : Json :=
  .object (fields ++ [("kind",.string "github"),("repo",.string "edge/app"),
    ("target",.object [("type",.string "issue"),("number",.int 7)]),("steer",.bool true)])

def jobFor (_ : Option Json) (fields : Json) : Option String :=
  match fields.field? "delivery" with
  | some (.string delivery) => some ("gh-" ++ delivery)
  | _ => none

def armed (run : String) : Settle where
  job := ⟨run,issue [],QUEUE,none,none⟩
  ending := ⟨some none,none⟩
  targetKey := none
  queueName := none
  heldResumed := false
  canPublish := true
  queues := ⟨none,true⟩
  now := 0

abbrev posting (run : String) (act : Act) (own : isClient act) : Call (Option Report) :=
  (ask (.inbox run act own)).bind fun _ => .done none

abbrev storing (run : String) : Call (Option Report) :=
  (ask (.fallbacksBecome run (.ofList [((comment "a").id,issue [("resume",.bool true),("delivery",.string "a")])]))).bind
    fun _ => .done none

/-- Two replicas hold the first comment; the job it begins is live when the second comment reaches it and the replica
that still runs. -/
def replicas : List (Call (Option Report)) :=
  [posting "r1" (.registerLive none "host-1") trivial,posting "r2" (.registerLive none "host-1") trivial,
    posting "r1" (.pushSteer (comment "a") 0) trivial,posting "r2" (.pushSteer (comment "a") 0) trivial,
    storing "r1",storing "r2",settleInbox (armed "r1"),posting "gh-a" (.registerLive none "host-1") trivial,
    posting "r2" (.pushSteer (comment "b") 0) trivial,posting "gh-a" (.pushSteer (comment "b") 0) trivial,
    settleInbox (armed "r2")]

def replicaTurns : List Nat := [0,1,2,3,4,5,6,6,6,6,7,8,9,10,10,10,10,10]

abbrev replicaRun : World Store (Call (Option Report)) :=
  (settles plainTexts jobFor).turns (answering Fault (answer plainTexts jobFor)) ⟨.start,replicas⟩ replicaTurns

private theorem replicas_reached : Reachable (settles plainTexts jobFor) .start replicaRun := by
  refine reachable_turns (settles plainTexts jobFor) _ (fun _ _ => mayFail_answering trivial) replicaTurns
    (reachable_entered _ _ replicas ?_)
  intro agent member
  simp only [replicas,List.mem_cons,List.not_mem_nil,or_false] at member
  rcases member with rfl | rfl | rfl | rfl | rfl | rfl | rfl | rfl | rfl | rfl | rfl
  · exact .client _ _ _
  · exact .client _ _ _
  · exact .client _ _ _
  · exact .client _ _ _
  · exact .fallbacks _ _
  · exact .fallbacks _ _
  · exact .settle _
  · exact .client _ _ _
  · exact .client _ _ _
  · exact .client _ _ _
  · exact .settle _

def finished : Call (Option Report) → Option Report
  | .done report => report
  | _ => none

private theorem finished_member {agents : List (Call (Option Report))} {report : Report}
    (found : report ∈ agents.filterMap finished) : .done (some report) ∈ agents := by
  obtain ⟨agent,member,same⟩ := List.mem_filterMap.mp found
  cases agent with
  | done result =>
    obtain rfl : result = some report := same
    exact member
  | issue => cases same

def secondComment : Entry :=
  ⟨(comment "b").id,.steer,.forge,.forge "42" "MEMBER","also update the changelog",1000,none,none⟩

def secondReport : Report := ⟨"r2",[{ secondComment with id := (comment "a").id },secondComment]⟩

theorem late_forge_settled_replicas : .done (some secondReport) ∈ replicaRun.agents ∧ ∀ entry ∈ secondReport.late,
    Began replicaRun.store secondReport entry ∨ Carried replicaRun.store secondReport entry ∨
      Answered replicaRun.store secondReport entry := by
  obtain ⟨-,covered,-⟩ := late_forge_settled plainTexts jobFor replicas_reached
  have ended : .done (some secondReport) ∈ replicaRun.agents := finished_member (by decide +kernel)
  exact ⟨ended,covered secondReport ended⟩

/-- The second comment is in the new job's inbox already, delivered there: the preseed skips it. -/
theorem replica_message_skipped :
    ¬∀ (texts : Texts) (forgeJobOf : Option Json → Json → Option String) (world : World Store (Call (Option Report))),
      Reachable (settles texts forgeJobOf) .start world →
      ∀ report, .done (some report) ∈ world.agents → ∀ entry ∈ report.late, Began world.store report entry ∨
        (∃ first job, .enqueued (inboxKey report.run) first job ∈ world.store.deeds ∧ ∃ by' written,
          .seeded by' (inboxKey job) written true ∈ world.store.deeds ∧ written.id = entry.id) ∨
        Answered world.store report entry := by
  intro written
  have deeds : ∀ deed ∈ replicaRun.store.deeds, (match deed with
      | .seeded _ _ _ wrote => wrote = false
      | .commented _ _ => False
      | _ => True) := by
    have all : replicaRun.store.deeds.all (fun deed => match deed with
        | .seeded _ _ _ wrote => !wrote
        | .commented _ _ => false
        | _ => true) = true := by decide +kernel
    intro deed member
    have own := List.all_eq_true.mp all deed member
    cases deed with
    | enqueued => trivial
    | seeded run job entry wrote => simpa using own
    | commented => simp at own
  rcases written plainTexts jobFor replicaRun replicas_reached secondReport (finished_member (by decide +kernel)) secondComment
    (by decide) with ⟨head,-⟩ | ⟨_,_,-,_,_,seeded,-⟩ | ⟨_,commented,-⟩
  · revert head
    decide
  · cases deeds _ seeded
  · exact deeds _ commented

end Samples

end PiDispatch.LateForge
