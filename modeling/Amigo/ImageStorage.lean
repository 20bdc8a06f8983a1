import Mathlib.Logic.Function.Basic
import Amigo.GuardedRuns
import Amigo.Registration

/-!
# Uploads to the storage bucket

An avatar is stored under the id of the user signed in, a post's image under an
identifier made for it; both go through one pair of nested requests. The completion
of the first asks for the url of the object whether or not the upload succeeded, and
the completion of the second calls back with that url, or not at all when there is
none. Nothing ever calls back with the empty string, which is what every caller takes
for a failure.

The bucket acts on an upload, and reads an url, at some moment of its own, apart from
the moment the app hears of it: a failed upload may have been stored, and be stored
even later, and another upload under the same name may come between. A bucket with any
content and every order of calls, requests and answers is covered. An url names one
object and is not empty; nothing else is assumed of it.
-/

namespace Amigo

/-- The urls the storage service gives its objects. -/
structure StorageService where
  url : String → String
  nonempty : ∀ name, url name ≠ ""
  distinct : Function.Injective url

/-- How far a call is. -/
inductive CallPhase where
  | putting
  | asking
  | answered (found : Bool)
  | ended
deriving DecidableEq

/-- A call of `saveImage` or `saveImagePost` past its unwraps. -/
structure UploadCall where
  name : String
  data : Jpeg
  stored : Bool := false
  putFailed : Bool := false
  phase : CallPhase := .putting
  /-- The strings its callback was invoked with. -/
  passed : List String := []
deriving DecidableEq

/-- The bucket and the app's calls, the first one first. -/
structure Storage where
  bucket : String → Option Jpeg
  calls : List UploadCall := []
  /-- A forced unwrap failed. -/
  stopped : Bool := false

/-- The calls of the app, and what the storage does with them. -/
inductive StorageEvent where
  /-- With the user signed in. -/
  | saveImage (currentUser : Option String) (image : Image)
  /-- With the identifier made for it. -/
  | saveImagePost (documentID : String) (image : Image)
  /-- The bucket stores the bytes of a call. -/
  | store (call : Nat)
  | putCompleted (call : Nat) (failed : Bool)
  /-- The bucket answers the url request of a call. -/
  | urlRead (call : Nat) (found : Bool)
  | urlDelivered (call : Nat)
deriving DecidableEq

/-- The name of the object a call is to store. -/
def StorageEvent.name : StorageEvent → Option String
  | .saveImage currentUser _ => currentUser
  | .saveImagePost documentID _ => some documentID
  | _ => none

namespace Storage

/-- What both functions do with the name of their object. -/
def putData (name : String) (image : Image) (storage : Storage) : Storage :=
  match image.jpegData with
  | none => { storage with stopped := true }
  | some data => { storage with calls := storage.calls ++ [{ name, data }] }

/-- One call changes. -/
def setCall (index : Nat) (call : UploadCall) (storage : Storage) : Storage :=
  { storage with calls := storage.calls.set index call }

/-- The completion of the url request. -/
def urlCompletion (service : StorageService) (call : UploadCall) : Option UploadCall :=
  match call.phase with
  | .answered true =>
    some { call with phase := .ended, passed := call.passed ++ [service.url call.name] }
  | .answered false => some { call with phase := .ended }
  | _ => none

/-- One step of the storage and the app. -/
def step (service : StorageService) (storage : Storage) (event : StorageEvent) : Option Storage :=
  if storage.stopped then none
  else match event with
    | .saveImage none _ => some { storage with stopped := true }
    | .saveImage (some uid) image => some (storage.putData uid image)
    | .saveImagePost documentID image => some (storage.putData documentID image)
    | .store index => (storage.calls[index]?).bind fun call =>
      if call.stored then none
      else some { storage.setCall index { call with stored := true } with
        bucket := Function.update storage.bucket call.name (some call.data) }
    | .putCompleted index failed => (storage.calls[index]?).bind fun call =>
      if call.phase = .putting ∧ (failed || call.stored) = true then
        some (storage.setCall index { call with putFailed := failed, phase := .asking })
      else none
    | .urlRead index found => (storage.calls[index]?).bind fun call =>
      if call.phase = .asking ∧ (!found || (storage.bucket call.name).isSome) = true then
        some (storage.setCall index { call with phase := .answered found })
      else none
    | .urlDelivered index => (storage.calls[index]?).bind fun call =>
      (urlCompletion service call).map (storage.setCall index)

/-- The object an url names holds these bytes. -/
def Holds (service : StorageService) (storage : Storage) (url : String) (data : Jpeg) : Prop :=
  ∃ name, service.url name = url ∧ storage.bucket name = some data

/-- The step takes a call on. -/
def IsCall (event : StorageEvent) : Prop :=
  match event with
  | .saveImage _ _ | .saveImagePost _ _ => True
  | _ => False

/-- A call is taken on; when its last request is answered, its callback has been
invoked once, with an url only if the object under it holds the call's bytes, and with
the empty string if a request failed; no other callback is invoked. -/
structure Honest (service : StorageService) (before : Storage) (event : StorageEvent)
    (after : Storage) : Prop where
  takenOn : IsCall event → after.stopped = false
  ended : ∀ index call, event = .urlDelivered index → before.calls[index]? = some call →
    ∃ url, (after.calls[index]?).map UploadCall.passed = some [url] ∧
      (url ≠ "" → after.Holds service url call.data) ∧
      (call.putFailed = true ∨ call.phase = .answered false → url = "")
  others : ∀ index call, event ≠ .urlDelivered index → before.calls[index]? = some call →
    (after.calls[index]?).map UploadCall.passed = some call.passed

/-- The image has a JPEG form and, for an avatar, a user is signed in. When the url
request of a call is answered with an url, its upload did not fail and the object
under its name still holds its bytes. -/
def Succeeds (before : Storage) (event : StorageEvent) : Prop :=
  match event with
  | .saveImage currentUser image => currentUser ≠ none ∧ image.jpegData ≠ none
  | .saveImagePost _ image => image.jpegData ≠ none
  | .urlDelivered index => ∀ call, before.calls[index]? = some call →
    call.phase = .answered true ∧ call.putFailed = false ∧
      before.bucket call.name = some call.data
  | _ => True

/-- What the bucket or a completion notes about a call without calling back, and the
bucket after it. -/
inductive Noted (before : Storage) (call : UploadCall) :
    StorageEvent → UploadCall → (String → Option Jpeg) → Prop
  | stored (index : Nat) (unstored : call.stored = false) :
      Noted before call (.store index) { call with stored := true }
        (Function.update before.bucket call.name (some call.data))
  | completed (index : Nat) (failed : Bool) (phase : call.phase = .putting)
      (heard : (failed || call.stored) = true) :
      Noted before call (.putCompleted index failed) { call with putFailed := failed, phase := .asking }
        before.bucket
  | answered (index : Nat) (found : Bool) (phase : call.phase = .asking)
      (present : (!found || (before.bucket call.name).isSome) = true) :
      Noted before call (.urlRead index found) { call with phase := .answered found } before.bucket

/-- What a step can do: stop at an unwrap, take a call on under its name, note
something about one call, or deliver the answer to its url request. -/
inductive Stepped (service : StorageService) (before : Storage) : StorageEvent → Storage → Prop
  | stops {event : StorageEvent} (isCall : IsCall event) (fails : ¬ Succeeds before event) :
      Stepped service before event { before with stopped := true }
  | begins {event : StorageEvent} (isCall : IsCall event) (succeeds : Succeeds before event)
      (name : String) (data : Jpeg) (named : event.name = some name) :
      Stepped service before event { before with calls := before.calls ++ [{ name, data }] }
  | notes {event : StorageEvent} (index : Nat) (call changed : UploadCall)
      (bucket : String → Option Jpeg) (running : before.calls[index]? = some call)
      (noted : Noted before call event changed bucket) :
      Stepped service before event { before.setCall index changed with bucket }
  | delivers (index : Nat) (call changed : UploadCall) (running : before.calls[index]? = some call)
      (completed : urlCompletion service call = some changed) :
      Stepped service before (.urlDelivered index) (before.setCall index changed)

/-- Nothing noted about a call has to do with its callback. -/
theorem Noted.quiet {before : Storage} {call changed : UploadCall} {event : StorageEvent}
    {bucket : String → Option Jpeg} (noted : Noted before call event changed bucket) :
    ¬ IsCall event ∧ (∀ other, event ≠ .urlDelivered other) ∧ changed.passed = call.passed ∧
      (changed.phase = .ended ↔ call.phase = .ended) := by
  cases noted with
  | stored => exact ⟨id, by simp, rfl, Iff.rfl⟩
  | completed _ _ phase => exact ⟨id, by simp, rfl, by simp [phase]⟩
  | answered _ _ phase => exact ⟨id, by simp, rfl, by simp [phase]⟩

/-- Starting an upload is such a step. -/
theorem putData_stepped {service : StorageService} {before : Storage} {event : StorageEvent}
    {name : String} {image : Image} (isCall : IsCall event) (named : event.name = some name)
    (succeeds : Succeeds before event ↔ image.jpegData ≠ none) :
    Stepped service before event (before.putData name image) := by
  rw [putData]
  cases encoded : image.jpegData with
  | none => exact .stops isCall (fun isFine => succeeds.mp isFine encoded)
  | some data => exact .begins isCall (succeeds.mpr (by simp [encoded])) name data named

/-- The inversion of a step. -/
theorem step_cases {service : StorageService} {before after : Storage} {event : StorageEvent}
    (stepped : before.step service event = some after) : Stepped service before event after := by
  simp only [step] at stepped
  split at stepped
  · cases stepped
  · cases event with
    | saveImage currentUser image =>
      cases currentUser with
      | none =>
        cases Option.some.inj stepped
        exact .stops trivial (fun isFine => isFine.1 rfl)
      | some uid =>
        cases Option.some.inj stepped
        exact putData_stepped trivial rfl (by simp [Succeeds])
    | saveImagePost documentID image =>
      cases Option.some.inj stepped
      exact putData_stepped trivial rfl Iff.rfl
    | store index =>
      obtain ⟨call, running, result⟩ := Option.bind_eq_some_iff.mp stepped
      split at result
      · cases result
      · rename_i unstored
        cases Option.some.inj result
        exact .notes index call _ _ running (.stored index (by simpa using unstored))
    | putCompleted index failed =>
      obtain ⟨call, running, result⟩ := Option.bind_eq_some_iff.mp stepped
      obtain ⟨⟨phase, heard⟩, result⟩ := Option.ite_none_right_eq_some.mp result
      cases Option.some.inj result
      exact .notes index call _ before.bucket running (.completed index failed phase heard)
    | urlRead index found =>
      obtain ⟨call, running, result⟩ := Option.bind_eq_some_iff.mp stepped
      obtain ⟨⟨phase, present⟩, result⟩ := Option.ite_none_right_eq_some.mp result
      cases Option.some.inj result
      exact .notes index call _ before.bucket running (.answered index found phase present)
    | urlDelivered index =>
      obtain ⟨call, running, result⟩ := Option.bind_eq_some_iff.mp stepped
      obtain ⟨changed, completed, rfl⟩ := Option.map_eq_some_iff.mp result
      exact .delivers index call changed running completed

/-- The strings another call passed are not touched. -/
theorem setCall_other {storage : Storage} {index other : Nat} {changed : UploadCall}
    (different : index ≠ other) :
    (storage.setCall index changed).calls[other]? = storage.calls[other]? :=
  List.getElem?_set_ne different

/-- A changed call is found changed. -/
theorem setCall_self {storage : Storage} {index : Nat} {call changed : UploadCall}
    (running : storage.calls[index]? = some call) :
    (storage.setCall index changed).calls[index]? = some changed :=
  List.getElem?_set_self (List.getElem?_eq_some_iff.mp running).1

/-- Completing the url request invokes the callback with the object's url, or not at
all. -/
theorem urlCompletion_eq {service : StorageService} {call changed : UploadCall}
    (completed : urlCompletion service call = some changed) :
    ∃ found, call.phase = .answered found ∧ changed.phase = .ended ∧
      changed.passed = if found then call.passed ++ [service.url call.name] else call.passed := by
  rw [urlCompletion] at completed
  split at completed
  · rename_i found
    cases Option.some.inj completed
    exact ⟨true, found, rfl, rfl⟩
  · rename_i missing
    cases Option.some.inj completed
    exact ⟨false, missing, rfl, rfl⟩
  · cases completed

/-- A call that has not ended has not called back. -/
def Waiting (storage : Storage) : Prop :=
  ∀ call ∈ storage.calls, call.phase ≠ .ended → call.passed = []

/-- A change that hands nothing over before the end keeps the others waiting. -/
theorem Waiting.setCall {storage : Storage} (waiting : storage.Waiting) {index : Nat}
    {changed : UploadCall} (fine : changed.phase ≠ .ended → changed.passed = []) :
    (storage.setCall index changed).Waiting := by
  intro call member
  obtain older | rfl := List.mem_or_eq_of_mem_set member
  · exact waiting call older
  · exact fine

/-- Every step keeps it so. -/
theorem Waiting.step {service : StorageService} {before after : Storage} {event : StorageEvent}
    (waiting : before.Waiting) (stepped : before.step service event = some after) :
    after.Waiting := by
  cases step_cases stepped with
  | stops => exact waiting
  | begins _ _ name data named =>
    intro call member notEnded
    obtain older | new := List.mem_append.mp member
    · exact waiting call older notEnded
    · rw [List.mem_singleton.mp new]
  | notes index call changed bucket running noted =>
    obtain ⟨_, _, passed, ended⟩ := noted.quiet
    apply waiting.setCall
    intro notEnded
    rw [passed]
    exact waiting call (List.mem_of_getElem? running) (fun isEnded => notEnded (ended.mpr isEnded))
  | delivers index call changed running completed =>
    obtain ⟨_, _, isEnded, _⟩ := urlCompletion_eq completed
    exact waiting.setCall (fun notEnded => absurd isEnded notEnded)

/-- Only a running app goes on. -/
theorem stepped_running {service : StorageService} {before after : Storage} {event : StorageEvent}
    (stepped : before.step service event = some after) : before.stopped = false := by
  by_contra stopped
  rw [Bool.not_eq_false] at stopped
  simp [step, stopped] at stepped

/-- Noting something about a call invokes no callback. -/
theorem passed_setCall {storage : Storage} {index other : Nat} {call changed held : UploadCall}
    (running : storage.calls[index]? = some call) (passed : changed.passed = call.passed)
    (isHeld : storage.calls[other]? = some held) :
    ((storage.setCall index changed).calls[other]?).map UploadCall.passed = some held.passed := by
  by_cases same : index = other
  · subst same
    cases Option.some.inj (running.symm.trans isHeld)
    rw [setCall_self running, Option.map_some, passed]
  · rw [setCall_other same, isHeld]
    rfl

/-- A step that only notes something about a call is honest, and nothing is asked of it. -/
theorem noted_honest {service : StorageService} {before : Storage} {event : StorageEvent}
    {index : Nat} {call changed : UploadCall} {bucket : String → Option Jpeg}
    (running : before.calls[index]? = some call) (noted : Noted before call event changed bucket) :
    Honest service before event { before.setCall index changed with bucket } ∧
      Succeeds before event := by
  obtain ⟨notCall, notDelivered, passed, _⟩ := noted.quiet
  refine ⟨⟨fun isCall => absurd isCall notCall, ?_, ?_⟩, ?_⟩
  · intro other _ isDelivered
    exact absurd isDelivered (notDelivered other)
  · intro other held _ isHeld
    exact passed_setCall running passed isHeld
  · cases noted <;> trivial

/-- After its url request is answered a waiting call has called back with the url, or
not at all. -/
theorem delivered_passed {service : StorageService} {before : Storage} {index : Nat}
    {call changed : UploadCall} (waiting : before.Waiting)
    (running : before.calls[index]? = some call)
    (completed : urlCompletion service call = some changed) :
    ∃ found, call.phase = .answered found ∧
      ((before.setCall index changed).calls[index]?).map UploadCall.passed =
        some (if found then [service.url call.name] else []) := by
  obtain ⟨found, answered, _, isPassed⟩ := urlCompletion_eq completed
  have silent : call.passed = [] := by
    apply waiting call (List.mem_of_getElem? running)
    simp [answered]
  refine ⟨found, answered, ?_⟩
  rw [setCall_self running, Option.map_some, isPassed, silent, List.nil_append]

/-- The delivery of an answer is honest exactly when the answer is an url, the upload
did not fail and the bytes are the call's. -/
theorem delivered_honest_iff {service : StorageService} {before : Storage} {index : Nat}
    {call changed : UploadCall} (waiting : before.Waiting)
    (running : before.calls[index]? = some call)
    (completed : urlCompletion service call = some changed) :
    Honest service before (.urlDelivered index) (before.setCall index changed) ↔
      Succeeds before (.urlDelivered index) := by
  obtain ⟨found, answered, after⟩ := delivered_passed waiting running completed
  constructor
  · intro honest other held
    cases Option.some.inj (running.symm.trans held)
    obtain ⟨url, isUrl, holds, empty⟩ := honest.ended index call rfl running
    rw [after, Option.some.injEq] at isUrl
    cases found with
    | false => cases isUrl
    | true =>
      cases isUrl
      have nonempty := service.nonempty call.name
      obtain ⟨name, same, inBucket⟩ := holds nonempty
      have isName : name = call.name := service.distinct same
      refine ⟨answered, ?_, isName ▸ inBucket⟩
      by_contra failed
      exact nonempty (empty (Or.inl (by simpa using failed)))
  · intro succeeds
    obtain ⟨isFound, notFailed, inBucket⟩ := succeeds call running
    cases answered.symm.trans isFound
    refine ⟨False.elim, ?_, ?_⟩
    · intro other held isDelivered isHeld
      cases isDelivered
      cases Option.some.inj (running.symm.trans isHeld)
      refine ⟨service.url call.name, after, fun _ => ⟨call.name, rfl, inBucket⟩, ?_⟩
      rintro (failed | missing)
      · exact absurd (notFailed.symm.trans failed) Bool.false_ne_true
      · cases missing.symm.trans isFound
    · intro other held notDelivered isHeld
      have different : index ≠ other := fun same => notDelivered (same ▸ rfl)
      rw [setCall_other different, isHeld]
      rfl

/-- A step is honest exactly when what it depends on succeeds. -/
theorem step_honest_iff {service : StorageService} {before after : Storage} {event : StorageEvent}
    (waiting : before.Waiting) (stepped : before.step service event = some after) :
    Honest service before event after ↔ Succeeds before event := by
  cases step_cases stepped with
  | stops isCall fails =>
    constructor
    · intro honest
      cases honest.takenOn isCall
    · intro succeeds
      exact absurd succeeds fails
  | begins isCall succeeds name data named =>
    have running : before.stopped = false := stepped_running stepped
    refine iff_of_true ⟨fun _ => running, ?_, ?_⟩ succeeds
    · rintro index call rfl
      exact isCall.elim
    · intro index call _ held
      rw [List.getElem?_append_left (List.getElem?_eq_some_iff.mp held).1, held]
      rfl
  | notes index call changed bucket running noted =>
    obtain ⟨honest, succeeds⟩ := noted_honest running noted
    exact iff_of_true honest succeeds
  | delivers index call changed running completed =>
    exact delivered_honest_iff waiting running completed

/-- At every step of every run, from any content of the bucket, a call is honest if and
only if its image and user are there, its two requests succeed, and no other upload has
replaced its bytes when the url is delivered. -/
theorem upload_honest_iff (service : StorageService) (bucket : String → Option Jpeg)
    (events : List StorageEvent) :
    ∀ before event after,
      (before, event, after) ∈ GuardedRuns.transitions (step service) { bucket } events →
        (Honest service before event after ↔ Succeeds before event) :=
  GuardedRuns.every_transition (fun _ _ _ => Waiting.step) (fun _ _ _ => step_honest_iff)
    (fun _ member => absurd member List.not_mem_nil : Waiting { bucket })

/-- Urls that end in the object's name. -/
def pathUrls : StorageService where
  url name := "https://storage/" ++ name
  nonempty name empty := by
    have letters := congrArg String.toList empty
    simp at letters
  distinct first second same := by
    have letters := congrArg String.toList same
    simpa [String.toList_inj] using letters

/-- An upload under a new name, stored before its completion. -/
def newUpload : List StorageEvent :=
  [.saveImagePost "AAAAAAAAAAAAAAAAAAA1" ⟨some [2]⟩, .store 0, .putCompleted 0 false, .urlRead 0 true]

/-- Its callback gets the url of its own bytes. -/
theorem upload_honest_iff_new : ∃ before after : Storage,
    (before, .urlDelivered 0, after) ∈ GuardedRuns.transitions (step pathUrls)
        { bucket := fun _ => none } (newUpload ++ [.urlDelivered 0]) ∧
      Honest pathUrls before (.urlDelivered 0) after := by
  have ran : ((GuardedRuns.exec (step pathUrls) { bucket := fun _ => none } newUpload).any
      fun before => (before.step pathUrls (.urlDelivered 0)).any fun _ =>
        decide (before.calls[0]? = some ⟨"AAAAAAAAAAAAAAAAAAA1", [2], true, false, .answered true, []⟩ ∧
          before.bucket "AAAAAAAAAAAAAAAAAAA1" = some [2])) = true := by
    decide +kernel
  obtain ⟨before, after, _, transition, running, inBucket⟩ := GuardedRuns.exists_transition ran
  refine ⟨before, after, transition, (upload_honest_iff _ _ _ before _ after transition).mpr ?_⟩
  intro call isRunning
  cases Option.some.inj (running.symm.trans isRunning)
  exact ⟨rfl, rfl, inBucket⟩

/-- The upload of a second avatar fails, and its callback gets the url of the first. -/
theorem upload_not_always_honest : ¬ ∀ (service : StorageService) (bucket : String → Option Jpeg)
    (events : List StorageEvent) (before : Storage) (event : StorageEvent) (after : Storage),
      (before, event, after) ∈ GuardedRuns.transitions (step service) { bucket } events →
        Honest service before event after := by
  intro always
  have ran : ((GuardedRuns.exec (step pathUrls)
      { bucket := fun name => if name = "uid" then some [1] else none }
      [.saveImage (some "uid") ⟨some [2]⟩, .putCompleted 0 true, .urlRead 0 true]).any fun before =>
        (before.step pathUrls (.urlDelivered 0)).any fun after =>
          decide (before.calls[0]? = some ⟨"uid", [2], false, true, .answered true, []⟩ ∧
            (after.calls[0]?).map UploadCall.passed = some ["https://storage/uid"])) = true := by
    decide +kernel
  obtain ⟨before, after, _, transition, running, passed⟩ := GuardedRuns.exists_transition ran
  obtain ⟨url, isUrl, _, empty⟩ := (always _ _ _ before _ after transition).ended 0 _ rfl running
  rw [passed, Option.some.injEq, empty (Or.inl rfl)] at isUrl
  exact absurd isUrl (by decide)

/-! ## The avatar of a registration -/

/-- The bucket of a list of stored images. -/
def bucketOf (images : List (String × Jpeg)) (name : String) : Option Jpeg := images.lookup name

/-- A stored image replaces the one of its name. -/
theorem bucketOf_replace (uid : String) (data : Jpeg) (images : List (String × Jpeg)) :
    bucketOf ((uid, data) :: images.filter (fun stored => stored.1 != uid)) =
      Function.update (bucketOf images) uid (some data) := by
  funext name
  by_cases same : name = uid
  · subst same
    simp [bucketOf]
  · rw [Function.update_of_ne same]
    have others : (images.filter (fun stored => stored.1 != uid)).lookup name = images.lookup name := by
      induction images with
      | nil => rfl
      | cons stored rest inductionHypothesis =>
        by_cases replaced : stored.1 = uid
        · have apart : (name == stored.1) = false := by simpa [replaced] using same
          rw [List.filter_cons_of_neg (by simp [replaced]), inductionHypothesis, List.lookup_cons,
            apart]
        · rw [List.filter_cons_of_pos (by simpa using replaced), List.lookup_cons, List.lookup_cons,
            inductionHypothesis]
    have apart : (name == uid) = false := by simpa using same
    rw [bucketOf, List.lookup_cons, apart]
    exact others

/-- The requests of one upload, in their order. -/
def upload (event : StorageEvent) (stored found : Bool) : List StorageEvent :=
  event :: (if stored then [.store 0] else []) ++
    [.putCompleted 0 (!stored), .urlRead 0 found, .urlDelivered 0]

/-- The upload inside a registration is a run of the storage: it leaves the bucket and
passes the urls that the run does. -/
theorem saveImage_storage (service : StorageService) {app : App} {image : Image} {data : Jpeg}
    {uid : String} {outcomes : Outcomes} {found : Bool}
    (signedIn : app.session.client.currentUser = some uid) (encoded : image.jpegData = some data)
    (answer : outcomes.downloadURL = if found then some (service.url uid) else none)
    (present : found = true → outcomes.putData = true ∨ bucketOf app.images uid ≠ none) :
    ∃ storage, GuardedRuns.exec (step service) { bucket := bucketOf app.images }
        (upload (.saveImage (some uid) image) outcomes.putData found) = some storage ∧
      storage.bucket = bucketOf (app.saveImage image outcomes (fun _ saved => saved)).images ∧
      storage.calls.map UploadCall.passed = [outcomes.downloadURL.toList] := by
  cases stored : outcomes.putData with
  | true =>
    cases found <;>
      simp [GuardedRuns.exec, upload, step, putData, setCall, urlCompletion, App.saveImage,
        App.unwrapUser, bucketOf_replace, signedIn, encoded, answer, stored]
  | false =>
    cases found with
    | false =>
      simp [GuardedRuns.exec, upload, step, putData, setCall, urlCompletion, App.saveImage,
        App.unwrapUser, signedIn, encoded, answer, stored]
    | true =>
      have older : bucketOf app.images uid ≠ none := by simpa [stored] using present rfl
      simp [GuardedRuns.exec, upload, step, putData, setCall, urlCompletion, App.saveImage,
        App.unwrapUser, signedIn, encoded, answer, stored, Option.isSome_iff_ne_none, older]

/-! ## Uploads under new names -/

/-- A call's name was not used by an earlier call, as those of posts are made. -/
def Fresh (before : Storage) (event : StorageEvent) : Prop :=
  ∀ name, event.name = some name → ∀ call ∈ before.calls, call.name ≠ name

/-- No two calls have one name, stored bytes are still there, and an upload that is
known not to have failed was stored. -/
structure Undisturbed (storage : Storage) : Prop where
  distinct : ∀ (first second : Nat) (call other : UploadCall), storage.calls[first]? = some call →
    storage.calls[second]? = some other → call.name = other.name → first = second
  holds : ∀ (index : Nat) (call : UploadCall), storage.calls[index]? = some call → call.stored = true →
    storage.bucket call.name = some call.data
  landed : ∀ (index : Nat) (call : UploadCall), storage.calls[index]? = some call → call.phase ≠ .putting →
    call.putFailed = false → call.stored = true

/-- A call after a change to one is that call changed, or another as it was. -/
theorem setCall_calls {storage : Storage} {index other : Nat} {changed held : UploadCall}
    (isHeld : (storage.setCall index changed).calls[other]? = some held) :
    (other = index ∧ held = changed) ∨ (other ≠ index ∧ storage.calls[other]? = some held) := by
  by_cases same : other = index
  · subst same
    have bound := (List.getElem?_eq_some_iff.mp isHeld).1
    rw [setCall, List.length_set] at bound
    rw [setCall, List.getElem?_set_self bound] at isHeld
    exact Or.inl ⟨rfl, (Option.some.inj isHeld).symm⟩
  · rw [setCall_other (Ne.symm same)] at isHeld
    exact Or.inr ⟨same, isHeld⟩

/-- A change that keeps the name, and whose stored bytes are in the bucket, leaves the
calls undisturbed. -/
theorem Undisturbed.setCall {storage : Storage} (undisturbed : storage.Undisturbed) {index : Nat}
    {call changed : UploadCall} {bucket : String → Option Jpeg}
    (running : storage.calls[index]? = some call) (name : changed.name = call.name)
    (own : changed.stored = true → bucket call.name = some changed.data)
    (kept : ∀ other, other ≠ call.name → bucket other = storage.bucket other)
    (landed : changed.phase ≠ .putting → changed.putFailed = false → changed.stored = true) :
    Undisturbed { storage.setCall index changed with bucket } := by
  have former {other : Nat} {held : UploadCall}
      (isHeld : (storage.setCall index changed).calls[other]? = some held) :
      ∃ before, storage.calls[other]? = some before ∧ held.name = before.name := by
    obtain ⟨rfl, rfl⟩ | ⟨_, unchanged⟩ := setCall_calls isHeld
    · exact ⟨call, running, name⟩
    · exact ⟨held, unchanged, rfl⟩
  refine ⟨?_, ?_, ?_⟩
  · intro first second firstCall secondCall isFirst isSecond same
    obtain ⟨firstBefore, wasFirst, firstName⟩ := former isFirst
    obtain ⟨secondBefore, wasSecond, secondName⟩ := former isSecond
    exact undisturbed.distinct _ _ _ _ wasFirst wasSecond
      (firstName.symm.trans (same.trans secondName))
  · intro other held isHeld stored
    obtain ⟨rfl, rfl⟩ | ⟨different, unchanged⟩ := setCall_calls isHeld
    · rw [name]
      exact own stored
    · have apart : held.name ≠ call.name :=
        fun same => different (undisturbed.distinct _ _ _ _ unchanged running same)
      exact (kept held.name apart).trans (undisturbed.holds other held unchanged stored)
  · intro other held isHeld
    obtain ⟨rfl, rfl⟩ | ⟨_, unchanged⟩ := setCall_calls isHeld
    · exact landed
    · exact undisturbed.landed other held unchanged

/-- A call under a new name disturbs no other. -/
theorem Undisturbed.begin {storage : Storage} (undisturbed : storage.Undisturbed) {name : String}
    {data : Jpeg} (fresh : ∀ call ∈ storage.calls, call.name ≠ name) :
    Undisturbed { storage with calls := storage.calls ++ [{ name, data }] } := by
  have former {index : Nat} {held : UploadCall}
      (isHeld : (storage.calls ++ [({ name, data } : UploadCall)])[index]? = some held) :
      storage.calls[index]? = some held ∨ (index = storage.calls.length ∧ held = { name, data }) := by
    obtain older | newer := Nat.lt_or_ge index storage.calls.length
    · rw [List.getElem?_append_left older] at isHeld
      exact Or.inl isHeld
    · rw [List.getElem?_append_right newer, List.getElem?_singleton] at isHeld
      obtain ⟨first, same⟩ := Option.ite_none_right_eq_some.mp isHeld
      exact Or.inr ⟨Nat.le_antisymm (Nat.sub_eq_zero_iff_le.mp first) newer, (Option.some.inj same).symm⟩
  refine ⟨?_, ?_, ?_⟩
  · intro first second call other isFirst isSecond same
    obtain wasFirst | ⟨firstLast, rfl⟩ := former isFirst
    · obtain wasSecond | ⟨_, rfl⟩ := former isSecond
      · exact undisturbed.distinct _ _ _ _ wasFirst wasSecond same
      · exact absurd same (fresh call (List.mem_of_getElem? wasFirst))
    · obtain wasSecond | ⟨secondLast, _⟩ := former isSecond
      · exact absurd same.symm (fresh other (List.mem_of_getElem? wasSecond))
      · exact firstLast.trans secondLast.symm
  · intro index call isHeld stored
    obtain older | ⟨_, rfl⟩ := former isHeld
    · exact undisturbed.holds index call older stored
    · cases stored
  · intro index call isHeld begun
    obtain older | ⟨_, rfl⟩ := former isHeld
    · exact undisturbed.landed index call older begun
    · exact absurd rfl begun

/-- With new names every step keeps the calls apart. -/
theorem Undisturbed.step {service : StorageService} {before after : Storage} {event : StorageEvent}
    (undisturbed : before.Undisturbed) (fresh : Fresh before event)
    (stepped : before.step service event = some after) : after.Undisturbed := by
  cases step_cases stepped with
  | stops => exact ⟨undisturbed.distinct, undisturbed.holds, undisturbed.landed⟩
  | begins _ _ name data named => exact undisturbed.begin (fresh name named)
  | notes index call changed bucket running noted =>
    have landed := undisturbed.landed index call running
    cases noted with
    | stored _ unstored =>
      refine undisturbed.setCall running rfl (fun _ => Function.update_self ..) ?_ (fun _ _ => rfl)
      intro other different
      exact Function.update_of_ne different ..
    | completed _ failed phase heard =>
      refine undisturbed.setCall running rfl (undisturbed.holds index call running) (fun _ _ => rfl) ?_
      rintro _ rfl
      simpa using heard
    | answered _ found phase present =>
      refine undisturbed.setCall running rfl (undisturbed.holds index call running) (fun _ _ => rfl) ?_
      intro _
      exact landed (by simp [phase])
  | delivers index call changed running completed =>
    have landed := undisturbed.landed index call running
    obtain ⟨found, phase, _, _⟩ := urlCompletion_eq completed
    have begun : call.phase ≠ .putting := by simp [phase]
    have kept : changed.name = call.name ∧ changed.data = call.data ∧ changed.stored = call.stored ∧
        changed.putFailed = call.putFailed := by
      simp only [urlCompletion, phase] at completed
      cases found <;> cases Option.some.inj completed <;> exact ⟨rfl, rfl, rfl, rfl⟩
    obtain ⟨name, data, stored, putFailed⟩ := kept
    refine undisturbed.setCall running name ?_ (fun _ _ => rfl) ?_
    · rw [stored, data]
      exact undisturbed.holds index call running
    · intro _ notFailed
      rw [stored]
      exact landed begun (putFailed.symm.trans notFailed)

/-- As long as no two calls use one name, a call is honest if and only if its two
requests succeed. -/
theorem fresh_upload_honest_iff (service : StorageService) (bucket : String → Option Jpeg)
    {events : List StorageEvent} {last : Storage}
    (run : GuardedRuns.Runs (step service) Fresh { bucket } events last) :
    ∀ before event after,
      (before, event, after) ∈ GuardedRuns.transitions (step service) { bucket } events →
        ∀ index call, event = .urlDelivered index → before.calls[index]? = some call →
          (Honest service before event after ↔
            call.phase = .answered true ∧ call.putFailed = false) := by
  have kept : ∀ before event after, before.Waiting ∧ before.Undisturbed → Fresh before event →
      before.step service event = some after → after.Waiting ∧ after.Undisturbed := by
    rintro before event after ⟨waiting, undisturbed⟩ fresh stepped
    exact ⟨waiting.step stepped, undisturbed.step fresh stepped⟩
  refine run.every_step kept ?_ ⟨fun call member => absurd member List.not_mem_nil, ?_⟩
  · rintro before event after ⟨waiting, undisturbed⟩ _ stepped index call rfl running
    rw [step_honest_iff waiting stepped]
    constructor
    · intro succeeds
      obtain ⟨found, notFailed, _⟩ := succeeds call running
      exact ⟨found, notFailed⟩
    · rintro ⟨found, notFailed⟩ other isRunning
      cases Option.some.inj (running.symm.trans isRunning)
      have stored := undisturbed.landed index call running (by simp [found]) notFailed
      exact ⟨found, notFailed, undisturbed.holds index call running stored⟩
  · exact ⟨by simp, by simp, by simp⟩

end Storage

end Amigo
