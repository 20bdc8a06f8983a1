import Amigo.FeedCity
import Amigo.FetchedPosts
import Amigo.Notices

/-!
# Syncs that overtake each other

A sync keeps the posts it has read while it reads the cities, and then stores those
of the city without looking at what is stored. No version is kept with a row, so of
two syncs that overlap the one that ends last decides, and that may be the one that
read first.

The server stamps the writes it commits with a time that does not go back. A client is
also shown the versions it has queued itself: such a draft is newer than every committed
version, gets its time when it is committed, and is no version once it is rejected. When
no sync is completed while another one of the client still holds an older version of a
post it stores, every later version stored for that post is at least as new: what is
still to be merged has passed every row there is.
-/

namespace Amigo

/-- Times are compared by their seconds, then by their nanoseconds. -/
theorem Timestamp.notAfter_iff (first second : Timestamp) : first.notAfter second = true ↔
    first.seconds < second.seconds ∨
      (first.seconds = second.seconds ∧ first.nanoseconds ≤ second.nanoseconds) := by
  simp [Timestamp.notAfter]

/-- No time is after itself. -/
theorem Timestamp.notAfter_refl (time : Timestamp) : time.notAfter time = true := by
  simp [Timestamp.notAfter_iff]

/-- The order of times is transitive. -/
theorem Timestamp.notAfter_trans {first second third : Timestamp}
    (earlier : first.notAfter second = true) (later : second.notAfter third = true) :
    first.notAfter third = true := by
  rw [Timestamp.notAfter_iff] at *
  omega

/-- The server time of a version of a post. -/
def updateTime (document : Document) : Option Timestamp :=
  match document.data.get "lastUpdate" with
  | some (.timestamp time) => some time
  | _ => none

/-- The version was written at a time or later. -/
def WrittenFrom (time : Timestamp) (document : Document) : Prop :=
  ∃ written, updateTime document = some written ∧ time.notAfter written = true

/-- The version was written at a time or earlier. -/
def WrittenBy (time : Timestamp) (document : Document) : Prop :=
  ∃ written, updateTime document = some written ∧ written.notAfter time = true

/-- What was written by a time was written by a later one. -/
theorem WrittenBy.mono {time later : Timestamp} {document : Document}
    (written : WrittenBy time document) (passes : time.notAfter later = true) :
    WrittenBy later document := by
  obtain ⟨stamp, isStamp, before⟩ := written
  exact ⟨stamp, isStamp, Timestamp.notAfter_trans before passes⟩

/-- A committed post carries the commit time. -/
theorem updateTime_write (time : Timestamp) (post : Post) :
    updateTime ⟨post.id, resolve (.committed time) post.toJson⟩ = some time := rfl

/-- The first of two stamps is not after the second. -/
def Stamp.notAfter (first second : Stamp) : Bool := first.value.notAfter second.value

/-- A world, the server time of its last commit and, for each client, what became of the
writes that have left its queue: the time of their commit, or none. -/
structure Clocked (ι : Type*) where
  world : World ι
  now : Timestamp
  outcomes : ι → List (Option Timestamp)

namespace World

variable {ι : Type*}

/-- The documents whose content a step stores as rows. -/
def merged (platform : Platform) (world : World ι) (event : Event ι) : List Document :=
  match event.2 with
  | .deliver index =>
    match (world.clients event.1).pending[index]? with
    | some ⟨.fetchCities snapshot .merge, some answer⟩ =>
      snapshot.filter (ofCity platform ((world.clients event.1).cityRead answer))
    | _ => []
  | _ => []

/-- A step that stores documents completes a sync. -/
theorem mem_merged {platform : Platform} {world : World ι} {event : Event ι}
    {document : Document} : document ∈ world.merged platform event ↔ ∃ snapshot answer,
      world.Completes event event.1 snapshot answer ∧ document ∈ snapshot ∧
        ofCity platform ((world.clients event.1).cityRead answer) document = true := by
  obtain ⟨client, action⟩ := event
  constructor
  · intro member
    cases action with
    | deliver index =>
      simp only [merged] at member
      split at member
      · rename_i snapshot answer ready
        obtain ⟨inSnapshot, titled⟩ := List.mem_filter.mp member
        exact ⟨snapshot, answer, ⟨index, rfl, ready⟩, inSnapshot, titled⟩
      · exact absurd member List.not_mem_nil
    | _ => exact absurd member List.not_mem_nil
  · rintro ⟨snapshot, answer, ⟨index, isEvent, ready⟩, inSnapshot, titled⟩
    cases isEvent
    simp only [merged, ready]
    exact List.mem_filter.mpr ⟨inSnapshot, titled⟩

variable [DecidableEq ι]

/-- What a step stores is in the table after it, as the row of the decoded post. -/
theorem merged_stored {platform : Platform} {world next : World ι} {event : Event ι} (sound : world.Sound)
    (pinned : world.Pinned platform) (stepped : world.step platform event = some next)
    {document : Document} (stored : document ∈ world.merged platform event) : ∃ post, Post.initJson document.data = some post ∧
      post.row ∈ (next.clients event.1).postAmigo := by
  obtain ⟨snapshot, answer, completes, inSnapshot, isCity⟩ := mem_merged.mp stored
  obtain ⟨leaves, _⟩ := completed_feed sound pinned stepped completes
  obtain ⟨index, _, ready⟩ := completes
  have posts := (sound.clients event.1).held _ (List.mem_of_getElem? ready)
  obtain ⟨post, decoded, _⟩ := (posts.keyed document inSnapshot).decodes
  exact ⟨post, decoded, (leaves post.row).mpr
    (Or.inl ⟨document, inSnapshot, post, decoded, ofCity_title isCity decoded, rfl⟩)⟩

end World

namespace Clocked

variable {ι : Type*}

/-- The empty world, before any commit. -/
def init (ι : Type*) (start : Timestamp) : Clocked ι := ⟨World.init ι, start, fun _ => []⟩

/-- The server clock: a commit is stamped with a time that is not before the last. -/
def tick (now : Timestamp) : Action → Option Timestamp
  | .commit time => if now.notAfter time then some time else none
  | _ => some now

/-- What an action makes of the write it takes from a queue. -/
def outcome : Action → List (Option Timestamp)
  | .commit time => [some time]
  | .reject => [none]
  | _ => []

/-- The stamp of a version a client holds: the time of its commit, its number while it is
queued, and none when it was rejected. -/
def stamp (clocked : Clocked ι) (client : ι) (document : Document) : Option Stamp :=
  match document.data.get "lastUpdate" with
  | some (.timestamp time) => some (.committed time)
  | some (.pendingTime number) =>
    match (clocked.outcomes client)[number]? with
    | none => some (.pending number)
    | some outcome => outcome.map .committed
  | _ => none

/-- The first of two versions a client holds is not newer, as long as both are versions. -/
def notNewer (clocked : Clocked ι) (client : ι) (first second : Document) : Bool :=
  match clocked.stamp client first, clocked.stamp client second with
  | some earlier, some later => earlier.notAfter later
  | _, _ => true

/-- What it means that a document is not newer than another. -/
theorem notNewer_iff (clocked : Clocked ι) (client : ι) (first second : Document) :
    clocked.notNewer client first second = true ↔ ∀ earlier later,
      clocked.stamp client first = some earlier → clocked.stamp client second = some later →
        earlier.notAfter later = true := by
  unfold notNewer
  split
  · rename_i earlier later isEarlier isLater
    simp [isEarlier, isLater]
  · rename_i missing
    simp only [true_iff]
    exact fun earlier later isEarlier isLater => absurd isLater (missing earlier later isEarlier)

/-- No sync of the client holds an older version of a post the step stores. -/
def NotOvertaken (platform : Platform) (clocked : Clocked ι) (event : Event ι) : Prop :=
  ∀ stored ∈ clocked.world.merged platform event,
    ∀ pending ∈ (clocked.world.clients event.1).pending, ∀ document ∈ pending.merging,
      document.documentID = stored.documentID → clocked.notNewer event.1 stored document = true

instance (platform : Platform) (clocked : Clocked ι) (event : Event ι) :
    Decidable (clocked.NotOvertaken platform event) :=
  inferInstanceAs (Decidable (∀ stored ∈ clocked.world.merged platform event,
    ∀ pending ∈ (clocked.world.clients event.1).pending, ∀ document ∈ pending.merging,
      document.documentID = stored.documentID → clocked.notNewer event.1 stored document = true))

/-- A version with a commit time has that stamp. -/
theorem stamp_updateTime {document : Document} {time : Timestamp} (clocked : Clocked ι) (client : ι)
    (updated : updateTime document = some time) :
    clocked.stamp client document = some (.committed time) := by
  unfold updateTime at updated
  split at updated
  · rename_i written isWritten
    cases Option.some.inj updated
    rw [stamp, isWritten]
  · simp at updated

/-- A version stays a draft as long as its write is queued. -/
theorem stamp_pending {clocked : Clocked ι} {client : ι} {document : Document} {number : Nat}
    (isDraft : clocked.stamp client document = some (.pending number)) :
    (clocked.outcomes client).length ≤ number := by
  unfold stamp at isDraft
  split at isDraft
  · simp at isDraft
  · split at isDraft
    · rename_i waiting
      cases Option.some.inj isDraft
      exact List.getElem?_eq_none_iff.mp waiting
    · simp at isDraft
  · simp at isDraft

/-- What a queued post of a client leaves is a draft. -/
theorem stamp_draft {clocked : Clocked ι} {client : ι} {key : String} {post : Post} {number : Nat}
    (queued : (clocked.outcomes client).length ≤ number) :
    clocked.stamp client ⟨key, resolve (.pending number) post.toJson⟩ = some (.pending number) := by
  have updated : (resolve (.pending number) post.toJson).get "lastUpdate" = some (.pendingTime number) := rfl
  simp only [stamp, updated, List.getElem?_eq_none queued]

/-- A client's version is passed: it is not from the future, not newer than the committed
one, and its own write is still where it was queued. -/
structure Passed (clocked : Clocked ι) (client : ι) (held : Document) : Prop where
  past : ∀ time, clocked.stamp client held = some (.committed time) → time.notAfter clocked.now = true
  stored : ∀ time, clocked.stamp client held = some (.committed time) →
    ∀ document ∈ clocked.world.cloud .posts, document.documentID = held.documentID →
      WrittenFrom time document
  queued : ∀ number, clocked.stamp client held = some (.pending number) → ∃ index json,
    number = (clocked.world.clients client).settled + index ∧
      (clocked.world.clients client).outbox[index]? = some (.setData .posts held.documentID json)

/-- No committed version is from the future, every write that has left a queue has an
outcome, and what syncs hold is passed. -/
structure Aged (clocked : Clocked ι) : Prop where
  stored : ∀ document ∈ clocked.world.cloud .posts, WrittenBy clocked.now document
  tallied : ∀ client, (clocked.outcomes client).length = (clocked.world.clients client).settled
  held : ∀ client, ∀ pending ∈ (clocked.world.clients client).pending,
    ∀ document ∈ pending.merging, clocked.Passed client document

/-- At the start nothing is stored. -/
theorem aged_init (start : Timestamp) : (init ι start).Aged := by
  constructor <;> simp [init, World.init]

/-- A version a client is shown is passed. -/
theorem Aged.shown {clocked : Clocked ι} (aged : clocked.Aged) (sound : clocked.world.Sound) {client : ι}
    {document : Document}
    (shown : document ∈ (clocked.world.clients client).localView clocked.world.cloud .posts) :
    clocked.Passed client document := by
  obtain stored | ⟨index, key, json, queued, rfl⟩ := Client.mem_localView shown
  · obtain ⟨written, updated, past⟩ := aged.stored document stored
    have stamped := stamp_updateTime clocked client updated
    refine ⟨?_, ?_, ?_⟩
    · intro time isTime
      cases Option.some.inj (stamped.symm.trans isTime)
      exact past
    · intro time isTime current isCurrent same
      cases Option.some.inj (stamped.symm.trans isTime)
      have one : current = document :=
        sound.posts.separate.eq_of_clash sameDocument_symmetric isCurrent stored same
      exact ⟨written, one ▸ updated, Timestamp.notAfter_refl _⟩
    · intro number isDraft
      cases Option.some.inj (stamped.symm.trans isDraft)
  · obtain ⟨post, _, _, rfl, rfl⟩ := (sound.clients client).queued key json (List.mem_of_getElem? queued)
    have stamped : clocked.stamp client ⟨post.id, resolve
        (.pending ((clocked.world.clients client).settled + index)) post.toJson⟩ =
          some (.pending ((clocked.world.clients client).settled + index)) :=
      stamp_draft ((aged.tallied client).trans_le (Nat.le_add_right _ _))
    refine ⟨?_, ?_, ?_⟩
    · intro time isTime
      cases Option.some.inj (stamped.symm.trans isTime)
    · intro time isTime
      cases Option.some.inj (stamped.symm.trans isTime)
    · intro number isDraft
      cases Option.some.inj (stamped.symm.trans isDraft)
      exact ⟨index, post.toJson, rfl, queued⟩

/-- Nothing a client is shown of a post is older than a version that is passed. -/
theorem Passed.shown {clocked : Clocked ι} {client : ι} {held document : Document}
    (passed : clocked.Passed client held) (aged : clocked.Aged) (sound : clocked.world.Sound)
    (shown : document ∈ (clocked.world.clients client).localView clocked.world.cloud .posts)
    (same : document.documentID = held.documentID) : clocked.notNewer client held document = true := by
  rw [notNewer_iff]
  intro earlier later isEarlier isLater
  obtain ⟨stored, apart⟩ | ⟨index, key, json, queued, rfl, last⟩ := mem_overlay_last shown
  · obtain ⟨written, updated, _⟩ := aged.stored document stored
    cases Option.some.inj ((stamp_updateTime clocked client updated).symm.trans isLater)
    cases earlier with
    | committed time =>
      obtain ⟨other, isOther, passes⟩ := passed.stored time isEarlier document stored same
      cases Option.some.inj (updated.symm.trans isOther)
      exact passes
    | pending number =>
      obtain ⟨index, json, _, isQueued⟩ := passed.queued number isEarlier
      exact absurd same.symm (apart _ (List.mem_of_getElem? isQueued) rfl)
  · obtain ⟨post, _, _, rfl, rfl⟩ := (sound.clients client).queued key json (List.mem_of_getElem? queued)
    have tallied := (aged.tallied client).trans_le (Nat.le_add_right _ index)
    cases Option.some.inj ((stamp_draft tallied).symm.trans isLater)
    cases earlier with
    | committed time => rfl
    | pending number =>
      obtain ⟨other, json, rfl, isQueued⟩ := passed.queued number isEarlier
      have notLater : other ≤ index := by
        by_contra later
        exact last other _ isQueued (by omega) rfl same.symm
      simpa [Stamp.notAfter, Stamp.value, Value.notAfter] using notLater

/-- Every version of the post that a sync of the client holds is at least as new as this
one, which is passed. -/
structure Floor (clocked : Clocked ι) (client : ι) (older : Document) : Prop where
  passed : clocked.Passed client older
  held : ∀ pending ∈ (clocked.world.clients client).pending, ∀ document ∈ pending.merging,
    document.documentID = older.documentID → clocked.notNewer client older document = true

/-- A merge that is not overtaken puts the floor at the version it stores. -/
theorem floor_of_merged {platform : Platform} {clocked : Clocked ι} {event : Event ι}
    (aged : clocked.Aged) {document : Document}
    (merged : document ∈ clocked.world.merged platform event)
    (inOrder : clocked.NotOvertaken platform event) : clocked.Floor event.1 document := by
  obtain ⟨snapshot, answer, ⟨index, _, ready⟩, inSnapshot, _⟩ := World.mem_merged.mp merged
  exact ⟨aged.held event.1 _ (List.mem_of_getElem? ready) document inSnapshot, inOrder document merged⟩

variable [DecidableEq ι]

/-- A step of the world under the server clock. -/
def step (platform : Platform) (clocked : Clocked ι) (event : Event ι) : Option (Clocked ι) :=
  (tick clocked.now event.2).bind fun now =>
    (clocked.world.step platform event).map fun world =>
      ⟨world, now, Function.update clocked.outcomes event.1
        (clocked.outcomes event.1 ++ outcome event.2)⟩

/-- A step of a clocked world is one of the world; the clock does not go back, a commit
sets it, and the writes that leave a queue are noted. -/
theorem step_inv {platform : Platform} {clocked next : Clocked ι} {event : Event ι}
    (stepped : clocked.step platform event = some next) :
    clocked.world.step platform event = some next.world ∧ clocked.now.notAfter next.now = true ∧
      (∀ time, event.2 = .commit time → next.now = time) ∧
      next.outcomes = Function.update clocked.outcomes event.1
        (clocked.outcomes event.1 ++ outcome event.2) := by
  obtain ⟨now, ticked, moved⟩ := Option.bind_eq_some_iff.mp stepped
  obtain ⟨world, worldStepped, rfl⟩ := Option.map_eq_some_iff.mp moved
  refine ⟨worldStepped, ?_⟩
  obtain ⟨client, action⟩ := event
  cases action with
  | commit time =>
    simp only [tick, Option.ite_none_right_eq_some, Option.some.injEq] at ticked
    obtain ⟨passes, rfl⟩ := ticked
    exact ⟨passes, fun other isCommit => Action.commit.inj isCommit, rfl⟩
  | _ =>
    cases Option.some.inj ticked
    refine ⟨Timestamp.notAfter_refl _, ?_, rfl⟩
    intro time isCommit
    cases isCommit

/-- A version's stamp after a step is the one before, or the client's own commit set it. -/
theorem stamp_step {platform : Platform} {clocked next : Clocked ι} {event : Event ι} {client : ι}
    {document : Document} {later : Stamp} (stepped : clocked.step platform event = some next)
    (stamped : next.stamp client document = some later) :
    clocked.stamp client document = some later ∨ ∃ time, event = (client, .commit time) ∧
      later = .committed time ∧
      clocked.stamp client document = some (.pending (clocked.outcomes client).length) := by
  obtain ⟨_, _, _, noted⟩ := step_inv stepped
  by_cases isOwn : client = event.1
  · subst isOwn
    have outcomes : next.outcomes event.1 = clocked.outcomes event.1 ++ outcome event.2 := by
      rw [noted, Function.update_self]
    unfold stamp at stamped ⊢
    split at stamped
    · exact Or.inl stamped
    · rename_i number isDraft
      rw [outcomes] at stamped
      by_cases before : number < (clocked.outcomes event.1).length
      · rw [List.getElem?_append_left before] at stamped
        exact Or.inl stamped
      · rw [List.getElem?_append_right (not_lt.mp before)] at stamped
        simp only [List.getElem?_eq_none (not_lt.mp before)]
        obtain ⟨actor, action⟩ := event
        have beyond : (clocked.outcomes actor).length ≤ number := not_lt.mp before
        cases action with
        | commit time =>
          by_cases last : number = (clocked.outcomes actor).length
          · subst last
            have isTime : Stamp.committed time = later := by simpa [outcome] using stamped
            exact Or.inr ⟨time, rfl, isTime.symm, rfl⟩
          · have behind : [some time][number - (clocked.outcomes actor).length]? = none :=
              List.getElem?_eq_none (by simp only [List.length_singleton]; omega)
            simp only [outcome, behind] at stamped
            exact Or.inl stamped
        | reject =>
          by_cases last : number = (clocked.outcomes actor).length
          · simp [outcome, last] at stamped
          · have behind : [(none : Option Timestamp)][number - (clocked.outcomes actor).length]? = none :=
              List.getElem?_eq_none (by simp only [List.length_singleton]; omega)
            simp only [outcome, behind] at stamped
            exact Or.inl stamped
        | _ => exact Or.inl stamped
    · simp at stamped
  · have outcomes : next.outcomes client = clocked.outcomes client := by
      rw [noted, Function.update_of_ne isOwn]
    unfold stamp at stamped
    rw [outcomes] at stamped
    exact Or.inl stamped

/-- A post in the cloud after a step was there, or is stamped with the time now. -/
theorem posts_after {platform : Platform} {clocked next : Clocked ι} {event : Event ι}
    (sound : clocked.world.Sound) (stepped : clocked.step platform event = some next)
    {document : Document} (stored : document ∈ next.world.cloud .posts) :
    document ∈ clocked.world.cloud .posts ∨ updateTime document = some next.now := by
  obtain ⟨worldStepped, _, committing, _⟩ := step_inv stepped
  obtain older | ⟨time, key, json, rest, isCommit, queued, rfl⟩ := World.stored_after worldStepped stored
  · exact Or.inl older
  · have isQueued : .setData .posts key json ∈ (clocked.world.clients event.1).outbox := by
      rw [queued]
      exact List.mem_cons_self
    obtain ⟨post, _, _, rfl, rfl⟩ := (sound.clients event.1).queued key json isQueued
    rw [committing time isCommit]
    exact Or.inr (updateTime_write time post)

/-- A document to be merged after a step was to be merged before at the same client,
or is one the client was shown. -/
theorem held_origin {platform : Platform} {clocked next : Clocked ι} {event : Event ι}
    (stepped : clocked.step platform event = some next) {client : ι} {pending : Pending}
    (member : pending ∈ (next.world.clients client).pending) {document : Document}
    (merging : document ∈ pending.merging) :
    (∃ older ∈ (clocked.world.clients client).pending, document ∈ older.merging) ∨
      document ∈ (clocked.world.clients client).localView clocked.world.cloud .posts := by
  obtain same | ⟨rfl, acted⟩ := World.client_after (step_inv stepped).1 client
  · exact Or.inl ⟨pending, same ▸ member, merging⟩
  · exact (Client.act_merging acted member merging).imp id Client.mem_postsRead

/-- Every write that leaves a queue is noted. -/
theorem tallied_step {platform : Platform} {clocked next : Clocked ι} {event : Event ι}
    (tallied : ∀ client, (clocked.outcomes client).length = (clocked.world.clients client).settled)
    (stepped : clocked.step platform event = some next) (client : ι) :
    (next.outcomes client).length = (next.world.clients client).settled := by
  obtain ⟨worldStepped, _, _, noted⟩ := step_inv stepped
  by_cases isOwn : client = event.1
  · subst isOwn
    rw [noted, Function.update_self, List.length_append, tallied]
    cases Client.act_queue (World.step_act worldStepped) with
    | grows lengthens noCommit noReject =>
      obtain ⟨_, _, settled⟩ := lengthens
      rw [settled]
      unfold outcome
      split
      · exact absurd ‹_› (noCommit _)
      · exact absurd ‹_› noReject
      · rfl
    | drains write rest queued settles result =>
      rw [result]
      obtain ⟨time, isCommit⟩ | isReject := settles
      · rw [isCommit]
        rfl
      · rw [isReject]
        rfl
  · rw [noted, Function.update_of_ne isOwn, World.step_other worldStepped isOwn, tallied]

/-- A commit of a client's draft leaves no other version of the post in the cloud. -/
theorem draft_committed {platform : Platform} {clocked next : Clocked ι} {client : ι} {time : Timestamp}
    {docId : String} {json : Json} (sound : clocked.world.Sound)
    (stepped : clocked.step platform (client, .commit time) = some next)
    (queued : (clocked.world.clients client).outbox[0]? = some (.setData .posts docId json))
    {document : Document} (stored : document ∈ next.world.cloud .posts)
    (same : document.documentID = docId) : updateTime document = some time := by
  obtain ⟨_, _, _, cloud, _, _⟩ := World.step_inv (step_inv stepped).1
  cases isQueue : (clocked.world.clients client).outbox with
  | nil => simp [isQueue] at queued
  | cons write rest =>
    have isHead : write = .setData .posts docId json := by simpa [isQueue] using queued
    subst isHead
    simp only [World.cloudAfter, isQueue] at cloud
    rw [cloud] at stored
    obtain ⟨_, different⟩ | rfl := mem_commit_setData.mp stored
    · exact absurd same different
    · obtain ⟨post, _, _, _, rfl⟩ := (sound.clients client).queued docId json (isQueue ▸ List.mem_cons_self)
      rfl

/-- A version that is passed stays so. -/
theorem Passed.step {platform : Platform} {clocked next : Clocked ι} {event : Event ι} {client : ι}
    {held : Document} (passed : clocked.Passed client held) (aged : clocked.Aged)
    (sound : clocked.world.Sound) (stepped : clocked.step platform event = some next) :
    next.Passed client held := by
  obtain ⟨worldStepped, passes, committing, _⟩ := step_inv stepped
  have past (time : Timestamp) (isTime : next.stamp client held = some (.committed time)) :
      time.notAfter next.now = true := by
    obtain before | ⟨_, rfl, isCommit, _⟩ := stamp_step stepped isTime
    · exact Timestamp.notAfter_trans (passed.past time before) passes
    · cases isCommit
      rw [committing time rfl]
      exact Timestamp.notAfter_refl time
  refine ⟨past, ?_, ?_⟩
  · intro time isTime document stored same
    obtain before | ⟨_, rfl, isCommit, isDraft⟩ := stamp_step stepped isTime
    · obtain older | isNow := posts_after sound stepped stored
      · exact passed.stored time before document older same
      · exact ⟨next.now, isNow, past time isTime⟩
    · cases isCommit
      obtain ⟨index, json, isNumber, queued⟩ := passed.queued _ isDraft
      obtain rfl : index = 0 := by
        have tallied := aged.tallied client
        omega
      exact ⟨time, draft_committed sound stepped queued stored same, Timestamp.notAfter_refl time⟩
  · intro number isDraft
    obtain before | ⟨_, _, isCommit, _⟩ := stamp_step stepped isDraft
    · obtain ⟨index, json, rfl, queued⟩ := passed.queued number before
      obtain same | ⟨rfl, acted⟩ := World.client_after worldStepped client
      · exact ⟨index, json, by rw [same], by rw [same]; exact queued⟩
      · cases Client.act_queue acted with
        | grows lengthens =>
          obtain ⟨added, outbox, settled⟩ := lengthens
          refine ⟨index, json, by rw [settled], ?_⟩
          rw [outbox, List.getElem?_append_left (List.getElem?_eq_some_iff.mp queued).1, queued]
        | drains write rest isQueue settles result =>
          -- the draft is not the write that has left the queue
          have waiting := stamp_pending isDraft
          rw [tallied_step aged.tallied stepped, result, Client.settle_settled] at waiting
          obtain ⟨earlier, rfl⟩ : ∃ earlier, index = earlier + 1 := ⟨index - 1, by omega⟩
          refine ⟨earlier, json, by rw [result, Client.settle_settled]; omega, ?_⟩
          rw [result, Client.settle_outbox]
          simpa [isQueue] using queued
    · cases isCommit

/-- A version that is not newer stays so. -/
theorem notNewer_step {platform : Platform} {clocked next : Clocked ι} {event : Event ι} {client : ι}
    {first second : Document} (notNewer : clocked.notNewer client first second = true)
    (passed : clocked.Passed client first) (stepped : clocked.step platform event = some next) :
    next.notNewer client first second = true := by
  obtain ⟨_, passes, committing, noted⟩ := step_inv stepped
  rw [notNewer_iff] at notNewer ⊢
  intro earlier later isEarlier isLater
  obtain sameEarlier | ⟨time, rfl, rfl, wasEarlier⟩ := stamp_step stepped isEarlier
  · obtain sameLater | ⟨time, rfl, rfl, wasLater⟩ := stamp_step stepped isLater
    · exact notNewer earlier later sameEarlier sameLater
    · have ordered := notNewer earlier _ sameEarlier wasLater
      cases earlier with
      | committed written =>
        rw [← committing time rfl]
        exact Timestamp.notAfter_trans (passed.past written sameEarlier) passes
      | pending number =>
        have waiting := stamp_pending isEarlier
        simp only [noted, Function.update_self, List.length_append, outcome,
          List.length_singleton] at waiting
        simp only [Stamp.notAfter, Stamp.value, Value.notAfter, decide_eq_true_eq] at ordered
        omega
  · obtain sameLater | ⟨other, isEvent, rfl, _⟩ := stamp_step stepped isLater
    · have ordered := notNewer _ later wasEarlier sameLater
      cases later with
      | committed written => simp [Stamp.notAfter, Stamp.value, Value.notAfter] at ordered
      | pending number => rfl
    · cases isEvent
      exact Timestamp.notAfter_refl time

/-- One step keeps the ages. -/
theorem Aged.step {platform : Platform} {clocked next : Clocked ι} {event : Event ι}
    (aged : clocked.Aged) (sound : clocked.world.Sound)
    (stepped : clocked.step platform event = some next) : next.Aged where
  stored := by
    intro document member
    obtain stored | isNow := posts_after sound stepped member
    · exact (aged.stored document stored).mono (step_inv stepped).2.1
    · exact ⟨next.now, isNow, Timestamp.notAfter_refl _⟩
  tallied := tallied_step aged.tallied stepped
  held := by
    intro client pending member document merging
    obtain ⟨older, before, inOlder⟩ | shown := held_origin stepped member merging
    · exact (aged.held client older before document inOlder).step aged sound stepped
    · exact (aged.shown sound shown).step aged sound stepped

/-- No step lowers the floor. -/
theorem Floor.step {platform : Platform} {clocked next : Clocked ι} {event : Event ι} {client : ι}
    {older : Document} (floor : clocked.Floor client older) (aged : clocked.Aged)
    (sound : clocked.world.Sound) (stepped : clocked.step platform event = some next) :
    next.Floor client older where
  passed := floor.passed.step aged sound stepped
  held := by
    intro pending member document merging same
    have ordered : clocked.notNewer client older document = true := by
      obtain ⟨before, wasPending, inBefore⟩ | shown := held_origin stepped member merging
      · exact floor.held before wasPending document inBefore same
      · exact floor.passed.shown aged sound shown same
    exact notNewer_step ordered floor.passed stepped

/-- What every run under the server clock keeps. -/
structure Kept (platform : Platform) (clocked : Clocked ι) : Prop where
  sound : clocked.world.Sound
  pinned : clocked.world.Pinned platform
  aged : clocked.Aged

/-- Every step keeps all of it. -/
theorem Kept.step {platform : Platform} {clocked next : Clocked ι} {event : Event ι}
    (kept : clocked.Kept platform) (stepped : clocked.step platform event = some next) :
    next.Kept platform where
  sound := kept.sound.step (step_inv stepped).1
  pinned := kept.pinned.step (step_inv stepped).1
  aged := kept.aged.step kept.sound stepped

/-- When a sync stores a version of a post and no other sync of the client then holds
an older one, every version a later sync of the client stores for the post is at
least as new, then and whenever the two are given their times. -/
theorem rows_never_go_back (platform : Platform) {start : Timestamp}
    {before later afterwards : List (Event ι)} {first next second last reached : Clocked ι}
    {event final : Event ι} {older newer : Document}
    (history : GuardedRuns.Runs (step platform) GuardedRuns.unguarded (init ι start) before first)
    (merged : older ∈ first.world.merged platform event)
    (inOrder : first.NotOvertaken platform event)
    (stepped : first.step platform event = some next)
    (continued : GuardedRuns.Runs (step platform) GuardedRuns.unguarded next later second)
    (mergedLater : newer ∈ second.world.merged platform final) (sameClient : final.1 = event.1)
    (samePost : newer.documentID = older.documentID)
    (finished : second.step platform final = some last)
    (settles : GuardedRuns.Runs (step platform) GuardedRuns.unguarded last afterwards reached) :
    second.notNewer event.1 older newer = true ∧ reached.notNewer event.1 older newer = true ∧
      ∃ post, Post.initJson newer.data = some post ∧
        post.row ∈ (last.world.clients final.1).postAmigo := by
  have initial : (init ι start).Kept platform :=
    ⟨World.sound_init, World.pinned_init platform, aged_init start⟩
  have keptFirst := history.invariant (fun _ _ _ kept _ moved => kept.step moved) initial
  have raised (state : Clocked ι) (action : Event ι) (following : Clocked ι)
      (facts : state.Kept platform ∧ state.Floor event.1 older)
      (_ : GuardedRuns.unguarded state action) (moved : state.step platform action = some following) :
      following.Kept platform ∧ following.Floor event.1 older :=
    ⟨facts.1.step moved, facts.2.step facts.1.aged facts.1.sound moved⟩
  have floor := floor_of_merged keptFirst.aged merged inOrder
  obtain ⟨keptSecond, floorSecond⟩ := continued.invariant raised
    ⟨keptFirst.step stepped, floor.step keptFirst.aged keptFirst.sound stepped⟩
  have ordered : second.notNewer event.1 older newer = true := by
    obtain ⟨snapshot, answer, ⟨index, _, ready⟩, inSnapshot, _⟩ := World.mem_merged.mp mergedLater
    rw [sameClient] at ready
    exact floorSecond.held _ (List.mem_of_getElem? ready) newer inSnapshot samePost
  refine ⟨ordered, ?_,
    World.merged_stored keptSecond.sound keptSecond.pinned (step_inv finished).1 mergedLater⟩
  have stays (state : Clocked ι) (action : Event ι) (following : Clocked ι)
      (facts : (state.Kept platform ∧ state.Floor event.1 older) ∧
        state.notNewer event.1 older newer = true)
      (_ : GuardedRuns.unguarded state action) (moved : state.step platform action = some following) :
      (following.Kept platform ∧ following.Floor event.1 older) ∧
        following.notNewer event.1 older newer = true :=
    ⟨raised state action following facts.1 trivial moved,
      notNewer_step facts.2 facts.1.2.passed moved⟩
  exact (settles.invariant stays (stays second final last
    ⟨⟨keptSecond, floorSecond⟩, ordered⟩ trivial finished)).2

/-- The author posts and opens the post again; a second device starts a sync that
waits for the cities. -/
def syncWaits : List (Event Bool) :=
  World.debut false ⟨"ann", "Ann", "", ""⟩ "Haifa" "AAAAAAAAAAAAAAAAAAA1" ++ World.sync false 4 ++
    [(true, .getAllPosts), (true, .answer 0), (true, .deliver 0), (true, .answer 0)]

/-- The author edits the post, and the second device starts another sync. -/
def editsAndSyncs : List (Event Bool) :=
  World.edit false 0 (World.debutPost ⟨"ann", "Ann", "", ""⟩ "Haifa" "AAAAAAAAAAAAAAAAAAA1") ++
    [(false, .uploaded 0 "url" "place" "changed"), (false, .commit ⟨6, 0⟩), (true, .getAllPosts)]

/-- The version of the post a commit at a second stores. -/
def version (recText : String) (seconds : Int) : Document :=
  ⟨"AAAAAAAAAAAAAAAAAAA1", resolve (.committed ⟨seconds, 0⟩) { World.debutPost ⟨"ann", "Ann", "", ""⟩ "Haifa"
    "AAAAAAAAAAAAAAAAAAA1" with recText := recText }.toJson⟩

/-- The first sync ends before the second has read, and the second stores the newer
version. -/
theorem rows_never_go_back_edited : ∃ last : Clocked Bool, ∃ post,
    Post.initJson (version "changed" 6).data = some post ∧
      post.row ∈ (last.world.clients true).postAmigo := by
  have ran : ((GuardedRuns.exec (step Platform.plain) (init Bool ⟨0, 0⟩) syncWaits).any fun first =>
      decide (version "text" 3 ∈ first.world.merged Platform.plain (true, .deliver 0) ∧
        first.NotOvertaken Platform.plain (true, .deliver 0) ∧
        (first.step Platform.plain (true, .deliver 0)).any (fun next =>
          (GuardedRuns.exec (step Platform.plain) next (editsAndSyncs ++
            [(true, .answer 2), (true, .deliver 2), (true, .answer 2)])).any fun second =>
              decide (version "changed" 6 ∈ second.world.merged Platform.plain (true, .deliver 2) ∧
                (second.step Platform.plain (true, .deliver 2)).isSome = true)) = true)) = true := by
    decide +kernel
  obtain ⟨first, history, merged, inOrder, continued⟩ := GuardedRuns.exists_run ran
  obtain ⟨next, stepped, following⟩ := (Option.any_eq_true _ _).mp continued
  obtain ⟨second, later, mergedLater, moves⟩ := GuardedRuns.exists_run following
  obtain ⟨last, finished⟩ := Option.isSome_iff_exists.mp moves
  obtain ⟨_, _, stored⟩ := rows_never_go_back _ history merged inOrder stepped later mergedLater rfl rfl
    finished (.done last)
  exact ⟨last, stored⟩

/-- A row can go back: the second sync reads and ends while the first still waits. -/
theorem rows_can_go_back : ¬ ∀ (start : Timestamp) (before later : List (Event Bool))
    (first next second last : Clocked Bool) (event final : Event Bool) (older newer : Document),
    GuardedRuns.Runs (step Platform.plain) GuardedRuns.unguarded (init Bool start) before first →
    older ∈ first.world.merged Platform.plain event → first.step Platform.plain event = some next →
    GuardedRuns.Runs (step Platform.plain) GuardedRuns.unguarded next later second →
    newer ∈ second.world.merged Platform.plain final → final.1 = event.1 →
    newer.documentID = older.documentID → second.step Platform.plain final = some last →
    second.notNewer event.1 older newer = true := by
  have ran : ((GuardedRuns.exec (step Platform.plain) (init Bool ⟨0, 0⟩) (syncWaits ++ editsAndSyncs ++
      [(true, .answer 1), (true, .deliver 1), (true, .answer 1)])).any fun first =>
      decide (version "changed" 6 ∈ first.world.merged Platform.plain (true, .deliver 1) ∧
        (first.step Platform.plain (true, .deliver 1)).any (fun second =>
          decide (version "text" 3 ∈ second.world.merged Platform.plain (true, .deliver 0) ∧
            (second.step Platform.plain (true, .deliver 0)).isSome = true ∧
            second.notNewer true (version "changed" 6) (version "text" 3) = false)) = true)) = true := by
    decide +kernel
  obtain ⟨first, history, merged, continued⟩ := GuardedRuns.exists_run ran
  obtain ⟨second, stepped, following⟩ := (Option.any_eq_true _ _).mp continued
  obtain ⟨mergedLater, moves, older⟩ := of_decide_eq_true following
  obtain ⟨last, finished⟩ := Option.isSome_iff_exists.mp moves
  intro always
  have newer := always _ _ _ first second second last _ _ _ _ history merged stepped (.done second)
    mergedLater rfl rfl finished
  exact absurd (older.symm.trans newer) (by decide)

end Clocked

end Amigo
