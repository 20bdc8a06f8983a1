import Mathlib.Data.Fintype.Basic
import Amigo.WellFormed

/-!
# What a delete in the cloud leaves deleted

Setting a document creates it when it is missing. The deletion of a post is a
write of its own queue, and an edit of the post looks at the cloud once, before
its upload; what it writes afterwards is unconditional. So an edit can bring a
deleted post back in two ways: its upload ends after the delete, or its write is
already queued when the delete is committed.

When neither happens the deletion is final. A key that was published, is in the
cloud no more and is named by no queued write cannot be written again: a new post
gets a fresh key, and an edit's upload that ends writes only under a key that is
still there.
-/

namespace Amigo

/-- The post document a write sets, if it sets one. -/
def Write.postId : Write → Option String
  | .setData .posts document _ => some document
  | _ => none

/-- The keys of the posts collection. -/
def postIds (cloud : Cloud) : List String := (cloud .posts).map Document.documentID

/-- A commit of a write that does not set the post adds no such key. -/
theorem postIds_commit {write : Write} {time : Timestamp} {cloud : Cloud} {docId : String}
    (member : docId ∈ postIds (write.commit time cloud)) :
    docId ∈ postIds cloud ∨ write.postId = some docId := by
  obtain ⟨document, stored, rfl⟩ := List.mem_map.mp member
  obtain older | ⟨key, json, rfl, rfl⟩ := mem_commit stored
  · exact Or.inl (List.mem_map_of_mem older)
  · exact Or.inr rfl

/-- A committed delete takes its key out. -/
theorem mem_postIds_delete {time : Timestamp} {cloud : Cloud} {document key : String} :
    key ∈ postIds ((Write.delete document).commit time cloud) ↔ key ∈ postIds cloud ∧ key ≠ document := by
  simp only [postIds, List.mem_map, mem_commit_delete]
  constructor
  · rintro ⟨stored, ⟨older, different⟩, rfl⟩
    exact ⟨⟨stored, older, rfl⟩, different⟩
  · rintro ⟨⟨stored, older, rfl⟩, different⟩
    exact ⟨stored, ⟨older, different⟩, rfl⟩

/-- A committed post adds its key. -/
theorem mem_postIds_setData {time : Timestamp} {cloud : Cloud} {document key : String} {json : Json} :
    key ∈ postIds ((Write.setData .posts document json).commit time cloud) ↔
      key ∈ postIds cloud ∨ key = document := by
  simp only [postIds, List.mem_map, mem_commit_setData]
  constructor
  · rintro ⟨stored, ⟨older, _⟩ | rfl, rfl⟩
    · exact Or.inl ⟨stored, older, rfl⟩
    · exact Or.inr rfl
  · rintro (⟨stored, older, rfl⟩ | rfl)
    · by_cases same : stored.documentID = document
      · exact ⟨_, Or.inr rfl, same.symm⟩
      · exact ⟨stored, Or.inl ⟨older, same⟩, rfl⟩
    · exact ⟨_, Or.inr rfl, rfl⟩

namespace World

variable {ι : Type*}

/-- The posts an event writes by finishing an edit whose image is saved. -/
def editsFinished (world : World ι) (event : Event ι) : List String :=
  match event.2 with
  | .uploaded index url _ _ =>
    match (world.clients event.1).uploads[index]? with
    | some (.edit _ docId) => if url = "" then [] else [docId]
    | _ => []
  | _ => []

/-- The posts an event deletes from the cloud. -/
def deletesCommitted (world : World ι) (event : Event ι) : List String :=
  match event.2, (world.clients event.1).outbox with
  | .commit _, .delete docId :: _ => [docId]
  | _, _ => []

/-- The event brings no deleted post back: an edit whose image is saved writes
only while its post is in the cloud, and a delete is committed only while no
client has a write of its post queued. -/
def StandingEdits (world : World ι) (event : Event ι) : Prop :=
  (∀ docId ∈ world.editsFinished event, docId ∈ postIds world.cloud) ∧
    ∀ docId ∈ world.deletesCommitted event, ∀ client,
      ∀ write ∈ (world.clients client).outbox, write.postId ≠ some docId

instance [Fintype ι] (world : World ι) (event : Event ι) : Decidable (world.StandingEdits event) :=
  inferInstanceAs (Decidable ((∀ docId ∈ world.editsFinished event, docId ∈ postIds world.cloud) ∧
    ∀ docId ∈ world.deletesCommitted event, ∀ client,
      ∀ write ∈ (world.clients client).outbox, write.postId ≠ some docId))

/-- A deleted post: published once, absent now, and named by no queued write. -/
structure Gone (world : World ι) (docId : String) : Prop where
  published : world.Published docId
  absent : docId ∉ postIds world.cloud
  unwritten : ∀ client, ∀ write ∈ (world.clients client).outbox, write.postId ≠ some docId

variable [DecidableEq ι]

/-- An admitted step leaves a deleted post deleted. -/
theorem Gone.step {platform : Platform} {world next : World ι} {event : Event ι} {docId : String}
    (gone : world.Gone docId) (admitted : world.StandingEdits event)
    (stepped : world.step platform event = some next) : next.Gone docId where
  published := gone.published.step stepped
  absent := by
    obtain ⟨_, _, _, cloud, _, _⟩ := step_inv stepped
    intro member
    rw [cloud] at member
    obtain same | ⟨time, write, rest, _, queued, committed⟩ := world.cloudAfter_cases event
    · exact gone.absent (same ▸ member)
    · rw [committed] at member
      obtain older | written := postIds_commit member
      · exact gone.absent older
      · apply gone.unwritten event.1 write ?_ written
        rw [queued]
        exact List.mem_cons_self
  unwritten := by
    intro client write member written
    obtain same | ⟨rfl, acted⟩ := client_after stepped client
    · exact gone.unwritten client write (same ▸ member) written
    · cases Client.act_outbox acted member with
      | kept before => exact gone.unwritten _ write before written
      | pressed pressed => cases pressed <;> simp [Write.postId, User.write] at written
      | posted index url placeText recText upload post finished running saved named carried =>
        have isDocument : upload.document = docId := by
          rw [← named]
          exact Option.some.inj written
        cases upload with
        | newPost screen idPost =>
          have uploading : idPost ∈ (world.clients event.1).newIds :=
            List.mem_filterMap.mpr ⟨_, List.mem_of_getElem? running, rfl⟩
          exact gone.published.2 event.1 (isDocument ▸ uploading)
        | edit screen document =>
          have writes : document ∈ world.editsFinished event := by
            simp [editsFinished, finished, running, saved]
          exact gone.absent (isDocument ▸ admitted.1 document writes)
      | announced => simp [Write.postId] at written
      | removed => simp [Write.postId] at written

/-- Committing a delete while no write of the post is queued deletes it. -/
theorem gone_of_commit {platform : Platform} {world next : World ι} {client : ι} {time : Timestamp}
    {docId : String} (sound : world.Sound)
    (issued : (world.clients client).outbox.head? = some (.delete docId))
    (present : docId ∈ postIds world.cloud) (admitted : world.StandingEdits (client, .commit time))
    (stepped : world.step platform (client, .commit time) = some next) : next.Gone docId := by
  obtain ⟨rest, queued⟩ := List.head?_eq_some_iff.mp issued
  have deletes : docId ∈ world.deletesCommitted (client, .commit time) := by
    simp [deletesCommitted, queued]
  have unwritten := admitted.2 docId deletes
  obtain ⟨_, _, _, cloud, _, _⟩ := step_inv stepped
  refine ⟨?_, ?_, ?_⟩
  · obtain ⟨document, stored, rfl⟩ := List.mem_map.mp present
    exact (sound.posts.known document stored).step stepped
  · intro member
    simp only [cloud, cloudAfter, queued] at member
    exact (mem_postIds_delete.mp member).2 rfl
  · intro other write member
    obtain same | ⟨rfl, acted⟩ := client_after stepped other
    · exact unwritten other write (same ▸ member)
    · simp only [Client.act, queued, Option.some.injEq] at acted
      rw [← acted] at member
      apply unwritten other write
      rw [queued]
      exact List.mem_cons_of_mem _ member

/-- Whatever came before, in a run whose edits stand from a committed delete on the post it
removed from the cloud is never in the cloud again. -/
theorem deleted_stays_deleted (platform : Platform) {before after : List (Event ι)}
    {world next last : World ι} {client : ι} {time : Timestamp} {docId : String}
    (history : GuardedRuns.Runs (step platform) GuardedRuns.unguarded (init ι) before world)
    (issued : (world.clients client).outbox.head? = some (.delete docId))
    (present : docId ∈ postIds world.cloud) (admitted : world.StandingEdits (client, .commit time))
    (removed : world.step platform (client, .commit time) = some next)
    (later : GuardedRuns.Runs (step platform) StandingEdits next after last) :
    docId ∉ postIds last.cloud := by
  have reachable : world.Reachable platform := ⟨before, history⟩
  have gone : next.Gone docId := gone_of_commit reachable.sound issued present admitted removed
  have kept (state : World ι) (event : Event ι) (following : World ι) (isGone : state.Gone docId)
      (stands : state.StandingEdits event) (stepped : state.step platform event = some following) :
      following.Gone docId := isGone.step stands stepped
  exact (later.invariant kept gone).absent

/-- The author deletes a post on one device while an edit of it, read and sent on
another device, has its image still uploading. -/
def editDuringDelete : List (Event Bool) :=
  debut false ⟨"ann", "Ann", "", ""⟩ "Haifa" "AAAAAAAAAAAAAAAAAAA1" ++ sync false 4 ++
    [(true, .signIn "ann")] ++ sync true 4 ++
    edit true 0 (debutPost ⟨"ann", "Ann", "", ""⟩ "Haifa" "AAAAAAAAAAAAAAAAAAA1") ++
    (remove false (debutPost ⟨"ann", "Ann", "", ""⟩ "Haifa" "AAAAAAAAAAAAAAAAAAA1") 4).dropLast

/-- A deleted post can come back: the upload of the edit ends after the delete. -/
theorem deleted_not_always_deleted : ¬ ∀ (before after : List (Event Bool))
    (world next last : World Bool) (client : Bool) (time : Timestamp) (docId : String),
    GuardedRuns.Runs (step Platform.plain) GuardedRuns.unguarded (init Bool) before world →
    (world.clients client).outbox.head? = some (.delete docId) → docId ∈ postIds world.cloud →
    world.step Platform.plain (client, .commit time) = some next →
    GuardedRuns.Runs (step Platform.plain) GuardedRuns.unguarded next after last →
    docId ∉ postIds last.cloud := by
  have ran : ((GuardedRuns.exec (step Platform.plain) (init Bool) editDuringDelete).any fun world =>
      decide ((world.clients false).outbox.head? = some (.delete "AAAAAAAAAAAAAAAAAAA1") ∧
        "AAAAAAAAAAAAAAAAAAA1" ∈ postIds world.cloud ∧
        (world.step Platform.plain (false, .commit ⟨5, 0⟩)).any (fun next =>
          (GuardedRuns.exec (step Platform.plain) next
            [(true, .uploaded 0 "url" "place" "changed"), (true, .commit ⟨6, 0⟩)]).any fun last =>
              decide ("AAAAAAAAAAAAAAAAAAA1" ∈ postIds last.cloud)) = true)) = true := by
    decide +kernel
  obtain ⟨world, history, issued, present, continued⟩ := GuardedRuns.exists_run ran
  obtain ⟨next, removed, following⟩ := (Option.any_eq_true _ _).mp continued
  obtain ⟨last, later, again⟩ := GuardedRuns.exists_run following
  intro always
  exact always _ _ world next last false _ _ history issued present removed later again

/-- The same edit fails to save its image, and the deleted post stays deleted. -/
theorem deleted_stays_deleted_failed_edit : ∃ last : World Bool,
    GuardedRuns.exec (step Platform.plain) (init Bool)
      (editDuringDelete ++ (false, .commit ⟨5, 0⟩) :: [(true, .uploadFailed 0)]) = some last ∧
    "AAAAAAAAAAAAAAAAAAA1" ∉ postIds last.cloud := by
  have ran : ((GuardedRuns.exec (step Platform.plain) (init Bool) editDuringDelete).any fun world =>
      decide ((world.clients false).outbox.head? = some (.delete "AAAAAAAAAAAAAAAAAAA1") ∧
        "AAAAAAAAAAAAAAAAAAA1" ∈ postIds world.cloud ∧
        world.StandingEdits (false, .commit ⟨5, 0⟩) ∧
        (world.step Platform.plain (false, .commit ⟨5, 0⟩)).any (fun next =>
          (GuardedRuns.execGuarded (step Platform.plain) StandingEdits next
            [(true, .uploadFailed 0)]).any fun _ => decide True) = true)) = true := by
    decide +kernel
  obtain ⟨world, history, issued, present, admitted, continued⟩ := GuardedRuns.exists_run ran
  obtain ⟨next, removed, following⟩ := (Option.any_eq_true _ _).mp continued
  obtain ⟨last, later, _⟩ := GuardedRuns.exists_guarded_run following
  refine ⟨last, ?_, deleted_stays_deleted _ history issued present admitted removed later⟩
  have whole := (history.append (.next trivial removed later.forget))
  exact (GuardedRuns.runs_iff_exec _ _ _).mp whole

end World

end Amigo
