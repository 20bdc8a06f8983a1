import Amigo.EditFlow
import Amigo.WellFormed

/-!
# Where a row was written

A post travels far before a screen shows it: an upload ends and issues its
write, the write waits in a queue, the server commits it, a read is answered
with its document, a closure merges the document into a table and the table is
read back. A device is shown its own posts from the moment it queues them. At none of
these stations are two posts mixed or a field made up. Every row of every device, and
every post of a list handed over, comes from one upload: its picture is the url that
upload returned, its texts are those typed beside it, its title and name are those its
screen kept and its user is the one signed in then; and the device itself sent that post
before the row appeared, or the device that did has had it committed.
-/

namespace Amigo

universe u

namespace Client

/-- A post's write queued after a step was queued before, or the step ended the upload
that put the post together. -/
theorem act_composed {platform : Platform} {cloud : Cloud} {client after : Client} {action : Action}
    (acted : client.act platform cloud action = some after) {docId : String} {json : Json}
    (queued : .setData .posts docId json ∈ after.outbox) :
    .setData .posts docId json ∈ client.outbox ∨
      ∃ (index : Nat) (url placeText recText : String) (upload : Upload) (post : Post),
        action = .uploaded index url placeText recText ∧ client.uploads[index]? = some upload ∧
        Composed client url placeText recText upload post ∧
        Write.setData .posts docId json = post.write := by
  obtain before | ⟨index, url, placeText, recText, _, _, rfl, _⟩ := act_posted acted queued
  · exact Or.inl before
  · have performed := (Option.ite_none_right_eq_some.mp acted).2
    obtain ⟨upload, running, result⟩ := Option.map_eq_some_iff.mp performed
    subst result
    obtain same | ⟨post, composed, issued⟩ := uploaded_composes
      { client with uploads := client.uploads.eraseIdx index } url placeText recText upload
    · exact Or.inl (same ▸ queued)
    · rw [issued, List.mem_append, List.mem_singleton] at queued
      obtain older | new := queued
      · exact Or.inl older
      · refine Or.inr ⟨index, url, placeText, recText, upload, post, rfl, running, ?_, new⟩
        exact ⟨composed.saved, composed.id, composed.postId, composed.placeImage,
          composed.placeLocation, composed.recText, composed.signature, composed.author⟩

end Client

namespace World

open GuardedRuns

variable {ι : Type u} [DecidableEq ι]

/-- The event ends the upload that puts the post together. -/
def Composes (world : World ι) (event : Event ι) (post : Post) : Prop :=
  ∃ index url placeText recText upload,
    event.2 = .uploaded index url placeText recText ∧
      (world.clients event.1).uploads[index]? = some upload ∧
      Client.Composed (world.clients event.1) url placeText recText upload post

/-- The event commits the post's write. -/
def Commits (world : World ι) (event : Event ι) (post : Post) : Prop :=
  ∃ time rest, event.2 = .commit time ∧ (world.clients event.1).outbox = post.write :: rest

/-- Some upload of the client's past put the post together, and the client sent it. -/
def Sent (platform : Platform) (client : ι) (post : Post) (past : List (Event ι)) : Prop :=
  Occurred (step platform) (init ι)
    (fun _ world event => event.1 = client ∧ world.Composes event post) past

/-- Some client sent the post, and its write was committed later. -/
def Stored (platform : Platform) (post : Post) (past : List (Event ι)) : Prop :=
  Occurred (step platform) (init ι)
    (fun earlier world event => Sent platform event.1 post earlier ∧ world.Commits event post) past

/-- The client may be shown the post: it sent the post itself, or it was committed. -/
def Shown (platform : Platform) (client : ι) (post : Post) (past : List (Event ι)) : Prop :=
  Sent platform client post past ∨ Stored platform post past

/-- The document is a version of a post the client may be shown. -/
def Versioned (platform : Platform) (client : ι) (past : List (Event ι)) (document : Document) : Prop :=
  ∃ post stamp, Shown platform client post past ∧ document = ⟨post.id, resolve stamp post.toJson⟩

/-- Every station of a post holds posts that were sent, and those of other devices once
they were committed. -/
structure Traceable (platform : Platform) (past : List (Event ι)) (world : World ι) : Prop where
  queued : ∀ client docId json, .setData .posts docId json ∈ (world.clients client).outbox →
    ∃ post, Sent platform client post past ∧ Write.setData .posts docId json = post.write
  documents : ∀ document ∈ world.cloud .posts,
    ∃ post time, Stored platform post past ∧ document = ⟨post.id, resolve (.committed time) post.toJson⟩
  reads : ∀ client, ∀ pending ∈ (world.clients client).pending,
    ∀ document ∈ pending.posts, Versioned platform client past document
  rows : ∀ client, ∀ row ∈ (world.clients client).postAmigo,
    ∃ post, Shown platform client post past ∧ row = post.row
  lists : ∀ client, ∀ data ∈ (world.clients client).delivered, ∀ shown ∈ data,
    ∃ post, Shown platform client post past ∧ readRow post.row = some shown

/-- What was shown stays shown in the past. -/
theorem Shown.later {platform : Platform} {client : ι} {post : Post} {past : List (Event ι)}
    (shown : Shown platform client post past) (event : Event ι) :
    Shown platform client post (past ++ [event]) :=
  shown.imp (fun sent => sent.later event) (fun stored => stored.later event)

/-- So does a version. -/
theorem Versioned.later {platform : Platform} {client : ι} {past : List (Event ι)} {document : Document}
    (versioned : Versioned platform client past document) (event : Event ι) :
    Versioned platform client (past ++ [event]) document := by
  obtain ⟨post, stamp, shown, same⟩ := versioned
  exact ⟨post, stamp, shown.later event, same⟩

/-- At the start nothing has to be traced. -/
theorem traceable_init (platform : Platform) : Traceable platform [] (init ι) where
  queued := by simp [init]
  documents := by simp [init]
  reads := by simp [init]
  rows := by simp [init]
  lists := by simp [init]

/-- A committed post was sent before. -/
theorem Traceable.committed {platform : Platform} {past : List (Event ι)} {before after : World ι}
    {event : Event ι} (traceable : Traceable platform past before)
    (executed : exec (step platform) (init ι) past = some before)
    (stepped : before.step platform event = some after) {document : Document}
    (member : document ∈ after.cloud .posts) : ∃ post time, Stored platform post (past ++ [event]) ∧
      document = ⟨post.id, resolve (.committed time) post.toJson⟩ := by
  obtain older | ⟨time, key, json, rest, isCommit, head, isDocument⟩ := stored_after stepped member
  · obtain ⟨post, time, stored, same⟩ := traceable.documents document older
    exact ⟨post, time, stored.later event, same⟩
  · have isQueued : .setData .posts key json ∈ (before.clients event.1).outbox :=
      head ▸ List.mem_cons_self
    obtain ⟨post, sent, same⟩ := traceable.queued event.1 key json isQueued
    have commits : before.Commits event post := ⟨time, rest, isCommit, same ▸ head⟩
    obtain ⟨rfl, rfl⟩ : key = post.id ∧ json = post.toJson := by simpa [Post.write] using same
    exact ⟨post, time, .now executed ⟨sent, commits⟩, isDocument⟩

/-- Whatever a client is shown of the posts can be traced. -/
theorem Traceable.view {platform : Platform} {past : List (Event ι)} {world : World ι}
    (traceable : Traceable platform past world) (client : ι) :
    ∀ document ∈ (world.clients client).localView world.cloud .posts,
      Versioned platform client past document := by
  apply Client.localView_forall
  · intro document member
    obtain ⟨post, time, stored, same⟩ := traceable.documents document member
    exact ⟨post, .committed time, Or.inr stored, same⟩
  · intro key json queued stamp
    obtain ⟨post, sent, same⟩ := traceable.queued client key json queued
    obtain ⟨rfl, rfl⟩ : key = post.id ∧ json = post.toJson := by simpa [Post.write] using same
    exact ⟨post, stamp, Or.inl sent, rfl⟩

/-- What the acting client holds after a step can be traced, given that the cloud can. -/
theorem Traceable.rows_after {platform : Platform} {past : List (Event ι)} {before after : World ι}
    {event : Event ι} (traceable : Traceable platform past before)
    (stepped : before.step platform event = some after) {client : ι} {row : Row}
    (member : row ∈ (after.clients client).postAmigo) :
    ∃ post, Shown platform client post (past ++ [event]) ∧ row = post.row := by
  have kept (isOld : row ∈ (before.clients client).postAmigo) :
      ∃ post, Shown platform client post (past ++ [event]) ∧ row = post.row := by
    obtain ⟨post, shown, same⟩ := traceable.rows client row isOld
    exact ⟨post, shown.later event, same⟩
  obtain same | ⟨_, acted⟩ := client_after stepped client
  · exact kept (same ▸ member)
  · obtain older | ⟨snapshot, answer, isRead, document, inSnapshot, decoded, isDecoded, rfl⟩ :=
      Client.act_rows acted member
    · exact kept older
    · obtain ⟨post, stamp, shown, rfl⟩ := traceable.reads client _ isRead document inSnapshot
      cases Option.some.inj ((initJson_resolve_toJson stamp post).symm.trans isDecoded)
      exact ⟨post, shown.later event, rfl⟩

/-- Every step keeps it traceable. -/
theorem Traceable.step {platform : Platform} {past : List (Event ι)} {before after : World ι}
    {event : Event ι} (traceable : Traceable platform past before)
    (executed : exec (step platform) (init ι) past = some before)
    (stepped : before.step platform event = some after) :
    Traceable platform (past ++ [event]) after where
  queued := by
    intro client docId json member
    have kept (isOld : .setData .posts docId json ∈ (before.clients client).outbox) :
        ∃ post, Sent platform client post (past ++ [event]) ∧
          Write.setData .posts docId json = post.write := by
      obtain ⟨post, sent, same⟩ := traceable.queued client docId json isOld
      exact ⟨post, sent.later event, same⟩
    obtain same | ⟨rfl, acted⟩ := client_after stepped client
    · exact kept (same ▸ member)
    · obtain older | ⟨index, url, placeText, recText, upload, post, ends, running, composed, same⟩ :=
        Client.act_composed acted member
      · exact kept older
      · exact ⟨post, .now executed
          ⟨rfl, index, url, placeText, recText, upload, ends, running, composed⟩, same⟩
  documents := fun _ member => traceable.committed executed stepped member
  reads := by
    intro client
    obtain same | ⟨rfl, acted⟩ := client_after stepped client
    · rw [same]
      exact fun pending member document inPosts =>
        (traceable.reads client pending member document inPosts).later event
    · exact act_posts_forall acted
        (fun pending member document inPosts =>
          (traceable.reads _ pending member document inPosts).later event)
        (fun document member => (traceable.view event.1 document member).later event)
  rows := fun _ _ member => traceable.rows_after stepped member
  lists := by
    intro client data member shown isShown
    have kept (isOld : data ∈ (before.clients client).delivered) :
        ∃ post, Shown platform client post (past ++ [event]) ∧ readRow post.row = some shown := by
      obtain ⟨post, known, isRead⟩ := traceable.lists client data isOld shown isShown
      exact ⟨post, known.later event, isRead⟩
    obtain same | ⟨_, acted⟩ := client_after stepped client
    · exact kept (same ▸ member)
    · have reachable : before.Reachable platform := ⟨past, (runs_iff_exec _ _ _).mpr executed⟩
      obtain same | ⟨list, same, fromRows⟩ :=
        Client.act_listed acted (reachable.pinned.clients _).plain
      · exact kept (same ▸ member)
      · rw [same, List.mem_append, List.mem_singleton] at member
        obtain older | rfl := member
        · exact kept older
        · obtain ⟨row, isRow, isRead⟩ := fromRows shown isShown
          obtain ⟨post, known, rfl⟩ := traceable.rows_after stepped isRow
          exact ⟨post, known, isRead⟩

/-- Every row of every device, and every post of every list handed over, is what one
upload of the past put together, and was sent by the device itself or has been committed. -/
theorem rows_trace_back (platform : Platform) {events : List (Event ι)} {last : World ι}
    (run : Runs (World.step platform) unguarded (init ι) events last) (client : ι) :
    (∀ row ∈ (last.clients client).postAmigo,
      ∃ post, Shown platform client post events ∧ row = post.row) ∧
      ∀ data ∈ (last.clients client).delivered, ∀ shown ∈ data,
        ∃ post, Shown platform client post events ∧ readRow post.row = some shown := by
  have traceable : Traceable platform events last :=
    exec_history (traceable_init platform)
      (fun past before event after executed holds stepped => holds.step executed stepped)
      ((runs_iff_exec _ _ _).mp run)
  exact ⟨traceable.rows client, traceable.lists client⟩

/-- The row and the list of a second device, after a first device has posted. -/
theorem rows_trace_back_shared : ∃ (events : List (Event Bool)) (last : World Bool),
    (last.clients true).postAmigo.length = 1 ∧ (last.clients true).delivered.length = 1 ∧
      (∀ row ∈ (last.clients true).postAmigo,
        ∃ post, Shown Platform.plain true post events ∧ row = post.row) ∧
      ∀ data ∈ (last.clients true).delivered, ∀ shown ∈ data,
        ∃ post, Shown Platform.plain true post events ∧ readRow post.row = some shown := by
  have ran : ((exec (World.step Platform.plain) (init Bool)
      (debut false ⟨"ann", "Ann", "", ""⟩ "Haifa" "AAAAAAAAAAAAAAAAAAA1" ++ sync true 4)).any
      fun world => decide ((world.clients true).postAmigo.length = 1 ∧
        (world.clients true).delivered.length = 1)) = true := by decide +kernel
  obtain ⟨last, run, rows, lists⟩ := exists_run ran
  exact ⟨_, last, rows, lists, rows_trace_back _ run true⟩

end World

end Amigo
