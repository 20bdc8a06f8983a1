import Amigo.Notices

/-!
# Which rows a sync removes

A sync ends with a deleter lookup, and the lookup removes the rows its answer
names. Nothing ties the announcement it reads to a delete: the announcement is
written first, and the delete is issued only if a later fetch, filtered by
whatever city is selected by then, still finds the post. So an announced post can
stay in the cloud with no delete on its way, and syncs then hide it. The client that
announced it need not even wait for the commit: its own lookups show what it has queued.

The law is about the board of notices. If whenever a lookup is answered the live
posts its notices name are being deleted, and while a client carries the answer none of
them is written anew or has its delete dropped, then every row a lookup removes
is of a post that is gone or going.
-/

namespace Amigo

/-- A row the deleter lookup removes is named by one of the notices it holds. -/
theorem deleterAnswered_removed {platform : Platform} {receiver : Post} {notices : List Document}
    {client : Client} {row : Row}
    (removed : row ∉ (Client.deleterAnswered platform receiver notices client).postAmigo)
    (present : row ∈ client.postAmigo) :
    ∃ notice ∈ notices, ∃ postIds, notice.data.string "idPost" = some postIds ∧
      namedBy postIds row = true := by
  induction notices generalizing client with
  | nil => exact absurd present removed
  | cons notice rest inductionHypothesis =>
    rw [Client.deleterAnswered] at removed
    split at removed
    · exact absurd present removed
    · rename_i postIds announces
      by_cases isNamed : namedBy postIds row = true
      · exact ⟨notice, List.mem_cons_self, postIds, announces, isNamed⟩
      · have kept := deleteFromDb_kept platform receiver present (Bool.not_eq_true _ ▸ isNamed)
        obtain ⟨other, inRest, facts⟩ := inductionHypothesis removed kept
        exact ⟨other, List.mem_cons_of_mem _ inRest, facts⟩

namespace World

variable {ι : Type*}

/-- The step delivers the answered deleter lookup of a sync. -/
def LooksUp (world : World ι) (event : Event ι) (client : ι) (notices : List Document) : Prop :=
  ∃ (index : Nat) (receiver : Post), event = (client, .deliver index) ∧
    (world.clients client).pending[index]? = some ⟨.deleterLookup receiver, some (.snapshot notices)⟩

/-- A delete of the post waits in some queue. -/
def BeingDeleted (world : World ι) (key : String) : Prop :=
  ∃ client, .delete key ∈ (world.clients client).outbox

instance [Fintype ι] (world : World ι) (key : String) : Decidable (world.BeingDeleted key) :=
  inferInstanceAs (Decidable (∃ client, .delete key ∈ (world.clients client).outbox))

/-- Every row the step removes from a client is of a post that is absent from the
cloud or being deleted there. -/
def RemovesOnlyDeleted (before after : World ι) (client : ι) : Prop :=
  ∀ row ∈ (before.clients client).postAmigo, row ∉ (after.clients client).postAmigo →
    ∀ key, row.psId = some key → key ∉ postIds before.cloud ∨ before.BeingDeleted key

variable [DecidableEq ι]

/-- The queue of a client once the head of the event's client is dropped. -/
def queueAfter (world : World ι) (event : Event ι) (client : ι) : List Write :=
  if client = event.1 then (world.clients client).outbox.tail else (world.clients client).outbox

/-- The event keeps lookups honest: a lookup is answered only while the live posts
its notices name are being deleted, and while a client carries a notice no post it
names is newly written, and none that is live loses its last delete. -/
def HonestLookups (world : World ι) (event : Event ι) : Prop :=
  (∀ key ∈ postIds world.cloud, named (world.noticesRead event) key = true →
    world.BeingDeleted key) ∧
  (∀ key ∈ world.postsCommitted event, ∀ client,
    named (world.clients client).lookups key = true →
      key ∈ postIds world.cloud ∨ world.BeingDeleted key) ∧
  ∀ key ∈ world.deletesRejected event, key ∈ postIds world.cloud →
    ∀ client, named (world.clients client).lookups key = true →
      ∃ other, .delete key ∈ world.queueAfter event other

instance [Fintype ι] (world : World ι) (event : Event ι) : Decidable (world.HonestLookups event) :=
  inferInstanceAs (Decidable ((∀ key ∈ postIds world.cloud,
    named (world.noticesRead event) key = true → world.BeingDeleted key) ∧
  (∀ key ∈ world.postsCommitted event, ∀ client,
    named (world.clients client).lookups key = true →
      key ∈ postIds world.cloud ∨ world.BeingDeleted key) ∧
  ∀ key ∈ world.deletesRejected event, key ∈ postIds world.cloud →
    ∀ client, named (world.clients client).lookups key = true →
      ∃ other, .delete key ∈ world.queueAfter event other))

/-- A rejected write leaves the queues as described. -/
theorem queueAfter_reject {platform : Platform} {world next : World ι} {event : Event ι}
    (stepped : world.step platform event = some next) (isReject : event.2 = .reject) (client : ι) :
    (next.clients client).outbox = world.queueAfter event client := by
  unfold queueAfter
  split
  · rename_i same
    subst same
    have acted := step_act stepped
    rw [isReject] at acted
    cases queued : (world.clients event.1).outbox with
    | nil => simp [Client.act, queued] at acted
    | cons write rest =>
      simp only [Client.act, queued, Option.some.injEq] at acted
      rw [← acted, List.tail_cons, Client.settle_outbox]
  · rename_i different
    rw [step_other stepped different]

/-- An admitted step keeps the board honest. -/
theorem honest_step {platform : Platform} {world next : World ι} {event : Event ι} (sound : world.Sound)
    (honest : world.board.Honest) (admitted : world.HonestLookups event)
    (stepped : world.step platform event = some next) : next.board.Honest := by
  obtain ⟨reading, writing, rejecting⟩ := admitted
  cases step_board sound stepped with
  | works works =>
    apply works.honest honest
    rintro key ⟨carried, live⟩
    obtain older | isNamed := works.carried carried
    · exact Or.inl older
    · exact Or.inr (reading key live isNamed)
  | publishes key committed publishes =>
    apply publishes.honest honest
    rintro other ⟨⟨client, isNamed⟩, rfl⟩
    exact writing other committed client isNamed
  | retracts key committed retracts => exact retracts.honest honest
  | announces notice committed announces => exact announces.honest honest
  | abandons key rejected abandons =>
    apply abandons.honest honest
    rintro other ⟨⟨⟨client, isNamed⟩, live⟩, rfl⟩
    obtain ⟨owner, isQueued⟩ := rejecting other rejected live client isNamed
    have isReject : event.2 = .reject := by
      unfold deletesRejected at rejected
      split at rejected
      · assumption
      · exact absurd rejected List.not_mem_nil
    refine ⟨owner, ?_⟩
    rw [queueAfter_reject stepped isReject]
    exact isQueued

/-- Delivering a lookup on an honest board removes rows of deleted posts only. -/
theorem removes_only_deleted {platform : Platform} {world next : World ι} {event : Event ι}
    (sound : world.Sound) (honest : world.board.Honest)
    (stepped : world.step platform event = some next) {client : ι} {notices : List Document}
    (looksUp : world.LooksUp event client notices) : RemovesOnlyDeleted world next client := by
  obtain ⟨index, receiver, rfl, ready⟩ := looksUp
  intro row present absent key isKey
  rw [deliver_answered stepped ready] at absent
  have removed : row ∉ (Client.deleterAnswered platform receiver notices { world.clients client with
      pending := (world.clients client).pending.eraseIdx index }).postAmigo := absent
  obtain ⟨notice, member, announced, announces, isNamed⟩ := deleterAnswered_removed removed present
  have keyed : row.postId = some key := ((sound.clients client).rows row present).keys ▸ isKey
  have carried : notice ∈ (world.clients client).lookups :=
    List.mem_flatMap.mpr ⟨_, List.mem_of_getElem? ready, member⟩
  rw [namedBy_key announced keyed] at isNamed
  by_cases live : key ∈ postIds world.cloud
  · exact Or.inr (honest ⟨⟨client, (named_iff _ _).mpr ⟨notice, carried, announced, announces, isNamed⟩⟩, live⟩)
  · exact Or.inl live

/-- In a run whose lookups are honest, started over any sound contents of the
cloud with clients that carry no notice, every row removed by the deleter lookup
of a sync is of a post that is absent from the cloud or being deleted there. -/
theorem sync_hides_no_live_post (platform : Platform) {start last : World ι} {events : List (Event ι)}
    (sound : start.Sound)
    (unread : ∀ client, (start.clients client).lookups = [])
    (run : GuardedRuns.Runs (step platform) HonestLookups start events last) :
    ∀ before event after, (before, event, after) ∈ GuardedRuns.transitions (step platform) start events →
      ∀ client notices, before.LooksUp event client notices → RemovesOnlyDeleted before after client := by
  have kept (world : World ι) (event : Event ι) (next : World ι)
      (holds : world.Sound ∧ world.board.Honest) (admitted : world.HonestLookups event)
      (stepped : world.step platform event = some next) : next.Sound ∧ next.board.Honest :=
    ⟨holds.1.step stepped, honest_step holds.1 holds.2 admitted stepped⟩
  have honest : start.board.Honest := by
    rintro key ⟨⟨client, isNamed⟩, _⟩
    rw [unread client] at isNamed
    exact absurd isNamed (by simp [named])
  refine run.every_step kept ?_ ⟨sound, honest⟩
  intro before event after holds _ stepped client notices looksUp
  exact removes_only_deleted holds.1 holds.2 stepped looksUp

/-- An announced post stays: the fetch after the announcement finds another city
selected, so no delete is issued; then a second client syncs. -/
def announcedOnly : List (Event Bool) :=
  debut false ⟨"ann", "Ann", "", ""⟩ "Haifa" "AAAAAAAAAAAAAAAAAAA1" ++ sync false 4 ++ sync true 4 ++
    (remove false (debutPost ⟨"ann", "Ann", "", ""⟩ "Haifa" "AAAAAAAAAAAAAAAAAAA1") 4).take 6 ++
    select true "Eilat" 5 ++ settle false 1 ++ select true "Haifa" 6 ++ (sync true 3).dropLast

/-- A deleted post is announced and removed; then a second client syncs. -/
def announcedAndDeleted : List (Event Bool) :=
  debut false ⟨"ann", "Ann", "", ""⟩ "Haifa" "AAAAAAAAAAAAAAAAAAA1" ++ sync false 4 ++ sync true 4 ++
    remove false (debutPost ⟨"ann", "Ann", "", ""⟩ "Haifa" "AAAAAAAAAAAAAAAAAAA1") 4 ++
    publish false 1 "AAAAAAAAAAAAAAAAAAA2" 5 ++ (sync true 3).dropLast

/-- A sync can hide a live post that nobody is deleting. -/
theorem live_post_not_always_shown : ¬ ∀ (events : List (Event Bool)) (last : World Bool),
    GuardedRuns.Runs (step Platform.plain) GuardedRuns.unguarded (init Bool) events last →
    ∀ before event after,
      (before, event, after) ∈ GuardedRuns.transitions (step Platform.plain) (init Bool) events →
      ∀ client notices, before.LooksUp event client notices →
        RemovesOnlyDeleted before after client := by
  have ran : ((GuardedRuns.exec (step Platform.plain) (init Bool) announcedOnly).any fun before =>
      (before.step Platform.plain (true, .deliver 0)).any fun after =>
        decide ((before.clients true).pending[0]? = some ⟨.deleterLookup
              (debutPost ⟨"ann", "Ann", "", ""⟩ "Haifa" "AAAAAAAAAAAAAAAAAAA1"),
            some (.snapshot [⟨"Post", [("idPost", .string "AAAAAAAAAAAAAAAAAAA1")]⟩])⟩ ∧
          (before.clients true).postAmigo =
            [(debutPost ⟨"ann", "Ann", "", ""⟩ "Haifa" "AAAAAAAAAAAAAAAAAAA1").row] ∧
          postIds before.cloud = ["AAAAAAAAAAAAAAAAAAA1"] ∧
          (before.clients false).outbox ++ (before.clients true).outbox = [] ∧
          (after.clients true).postAmigo = [])) = true := by decide +kernel
  obtain ⟨before, after, run, transition, ready, rows, live, queues, emptied⟩ :=
    GuardedRuns.exists_transition ran
  obtain ⟨firstQueue, secondQueue⟩ := List.append_eq_nil_iff.mp queues
  intro always
  have removes := always _ _ run before (true, .deliver 0) after transition true _ ⟨0, _, rfl, ready⟩
  rcases removes (debutPost ⟨"ann", "Ann", "", ""⟩ "Haifa" "AAAAAAAAAAAAAAAAAAA1").row
      (by simp [rows]) (by simp [emptied]) "AAAAAAAAAAAAAAAAAAA1" (by decide) with
    absent | ⟨client, isQueued⟩
  · exact absent (by simp [live])
  · cases client with
    | false => simp [firstQueue] at isQueued
    | true => simp [secondQueue] at isQueued

/-- The second client's lookup removes its row of the deleted post, rightly. -/
theorem sync_hides_no_live_post_deleted : ∃ before after : World Bool, ∃ notices,
    before.LooksUp (true, .deliver 0) true notices ∧
    (before.clients true).postAmigo.length = 2 ∧ (after.clients true).postAmigo.length = 1 ∧
    RemovesOnlyDeleted before after true := by
  have ran : (GuardedRuns.execGuarded (step Platform.plain) HonestLookups (init Bool)
      announcedAndDeleted).any (fun before =>
      decide ((before.clients true).pending[0]? = some ⟨.deleterLookup
            (debutPost ⟨"ann", "Ann", "", ""⟩ "Haifa" "AAAAAAAAAAAAAAAAAAA2"),
          some (.snapshot [⟨"Post", [("idPost", .string "AAAAAAAAAAAAAAAAAAA1")]⟩])⟩ ∧
        (before.clients true).postAmigo.length = 2 ∧ before.HonestLookups (true, .deliver 0) ∧
        (before.step Platform.plain (true, .deliver 0)).map
          (fun after => (after.clients true).postAmigo.length) = some 1)) = true := by decide +kernel
  obtain ⟨before, executed, facts⟩ := (Option.any_eq_true _ _).mp ran
  obtain ⟨ready, rows, admitted, next⟩ := of_decide_eq_true facts
  obtain ⟨after, stepped, fewer⟩ := Option.map_eq_some_iff.mp next
  have history := GuardedRuns.runs_of_execGuarded executed
  have run := history.append (.next admitted stepped (.done after))
  have unguarded := (GuardedRuns.runs_iff_exec _ _ _).mp history.forget
  refine ⟨before, after, _, ⟨0, _, rfl, ready⟩, rows, fewer, ?_⟩
  exact sync_hides_no_live_post _ sound_init (fun _ => rfl) run before
    (true, .deliver 0) after (GuardedRuns.transition_after unguarded stepped) true _
    ⟨0, _, rfl, ready⟩

end World

end Amigo
