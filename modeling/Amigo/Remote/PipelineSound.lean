import Mathlib.Data.List.Forall2
import Mathlib.Tactic.Common
import Amigo.Remote.ClientRuns

/-!
# The pipeline is the front of the queue

What every handler of the writing client keeps. The pipeline is a prefix of the queue
of the current user, of at most ten batches; the open call is that user's, and carries,
once hands are shaken, exactly the batches of the pipeline, the answered ones before
the ones the server has not read; an idle timer runs only while there is nothing to
send; and the stream waits for exactly one token while it is starting.
-/

namespace Amigo.Firestore

open LawfulMutationQueue

variable {Store User M : Type}

/-- A call carries the batches of the pipeline in order, the answered ones first. -/
structure Call.Carries (call : Call User M) (pipeline : List (MutationBatch M)) : Prop where
  answered : List.Forall₂ (fun response batch => response.results = batch.mutations.length)
    call.responses (pipeline.take call.responses.length)
  unread : List.Forall₂ (fun request batch => ∃ token, request = .write batch.mutations token)
    call.requests (pipeline.drop call.responses.length)

/-- A call is shaking hands. -/
def Call.Shakes (call : Call User M) : Prop :=
  call.requests = [.handshake] ∧ call.responses = [] ∨
    call.requests = [] ∧ ∃ response, call.responses = [response]

namespace Call.Carries

variable {call : Call User M} {pipeline : List (MutationBatch M)}

/-- A call and the pipeline have as many entries. -/
theorem length (carries : call.Carries pipeline) :
    call.responses.length + call.requests.length = pipeline.length := by
  have front := carries.answered.length_eq
  have back := carries.unread.length_eq
  rw [List.length_take] at front
  rw [List.length_drop] at back
  omega

/-- One more batch is written at the end. -/
theorem push (carries : call.Carries pipeline) (batch : MutationBatch M) (token : ByteString) :
    Call.Carries { call with requests := call.requests ++ [.write batch.mutations token] }
      (pipeline ++ [batch]) := by
  have fits : call.responses.length ≤ pipeline.length := by
    have total := carries.length
    omega
  constructor
  · simpa [List.take_append_of_le_length fits] using carries.answered
  · rw [List.drop_append_of_le_length fits]
    exact List.rel_append carries.unread (.cons ⟨token, rfl⟩ .nil)

/-- The server reads a batch and answers it. -/
theorem answer {mutations : List M} {token : ByteString} {rest : List (Request M)}
    (carries : call.Carries pipeline) (next : call.requests = .write mutations token :: rest)
    (streamToken : ByteString) :
    Call.Carries { call with
      requests := rest
      responses := call.responses ++ [⟨mutations.length, streamToken⟩] } pipeline ∧
    ∃ batch, pipeline[call.responses.length]? = some batch ∧ batch.mutations = mutations := by
  have unread := carries.unread
  rw [next] at unread
  obtain ⟨batch, remaining, ⟨_, same⟩, others, split⟩ := List.forall₂_cons_left_iff.mp unread
  have found : pipeline[call.responses.length]? = some batch := by
    rw [← List.head?_drop, split]
    rfl
  have equal : mutations = batch.mutations := by cases same; rfl
  refine ⟨⟨?_, ?_⟩, batch, found, equal.symm⟩
  · rw [List.length_append, List.length_singleton, List.take_add_one, found]
    exact List.rel_append carries.answered (.cons (by rw [equal]) .nil)
  · rw [List.length_append, List.length_singleton, ← List.drop_drop, split]
    exact others

/-- The first response answers the first batch. -/
theorem pop {response : Response} {rest : List Response} (carries : call.Carries pipeline)
    (next : call.responses = response :: rest) :
    ∃ batch remaining, pipeline = batch :: remaining ∧ response.results = batch.mutations.length ∧
      Call.Carries { call with responses := rest } remaining := by
  have answered := carries.answered
  have unread := carries.unread
  rw [next] at answered unread
  cases pipeline with
  | nil => simp [List.forall₂_nil_right_iff] at answered
  | cons batch remaining =>
    obtain ⟨first, others⟩ := List.forall₂_cons.mp
      (by simpa only [List.length_cons, List.take_succ_cons] using answered)
    exact ⟨batch, remaining, rfl, first, others, by simpa using unread⟩

end Call.Carries

namespace RemoteStore

/-- The token requests made for the stream as it is now. -/
def asking (remote : RemoteStore User M) : Nat :=
  remote.tokenRequests.countP (fun request => decide (request.closeCount = remote.closeCount))

/-- The batches of the pipeline whose answers are under way. -/
def answered (remote : RemoteStore User M) : List (MutationBatch M) :=
  match remote.call with
  | none => []
  | some call =>
    if remote.handshakeComplete = true then remote.writePipeline.take call.responses.length else []

/-- What holds of the stream by itself, where `queued` counts the tokens that wait as
tasks, by the stream they were asked for. -/
structure Shape (queued : Nat → Nat) (remote : RemoteStore User M) : Prop where
  paused : remote.backoff = true ↔ remote.state = .backoff
  called : remote.call.isSome = true ↔ remote.state = .opened
  asked : remote.asking + queued remote.closeCount = if remote.state = .starting then 1 else 0
  past : ∀ request ∈ remote.tokenRequests, request.closeCount ≤ remote.closeCount
  future : ∀ stream, remote.closeCount < stream → queued stream = 0

/-- What the pipeline's handlers leave alone. -/
structure Frame (before after : RemoteStore User M) : Prop where
  enabled : after.isNetworkEnabled = before.isNetworkEnabled
  handshake : after.handshakeComplete = before.handshakeComplete
  stream : after.closeCount = before.closeCount
  credentials : after.credentials = before.credentials
  counter : after.tokenCounter = before.tokenCounter
  answered : after.answered = before.answered
  opens : after.state = .opened ↔ before.state = .opened

/-- Nothing has changed. -/
theorem Frame.rfl {remote : RemoteStore User M} : Frame remote remote :=
  ⟨Eq.refl _, Eq.refl _, Eq.refl _, Eq.refl _, Eq.refl _, Eq.refl _, Iff.rfl⟩

/-- Two changes of a kind are one. -/
theorem Frame.trans {first second third : RemoteStore User M} (before : Frame first second)
    (after : Frame second third) : Frame first third :=
  ⟨after.enabled.trans before.enabled, after.handshake.trans before.handshake,
    after.stream.trans before.stream, after.credentials.trans before.credentials,
    after.counter.trans before.counter, after.answered.trans before.answered,
    after.opens.trans before.opens⟩

/-- The states of a started stream. -/
theorem isStarted_iff (remote : RemoteStore User M) :
    remote.isStarted = true ↔
      remote.state = .starting ∨ remote.state = .backoff ∨ remote.state = .opened := by
  simp [isStarted, or_assoc]

/-- A stopped stream starts, or waits before it does. -/
theorem start_spec {queued : Nat → Nat} {remote : RemoteStore User M}
    (shape : remote.Shape queued) (stopped : remote.isStarted = false) :
    ∃ state backoff tokenRequests,
      remote.start = some { remote with state, backoff, tokenRequests } ∧
      (state = .starting ∨ state = .backoff) ∧
      Shape queued { remote with state, backoff, tokenRequests } := by
  have counted := shape.asked
  have closed : remote.call.isSome = true ↔ False := by
    rw [shape.called]
    have not := (remote.isStarted_iff).not.mp (by simp [stopped])
    tauto
  cases at_state : remote.state with
  | initial =>
    refine ⟨.starting, remote.backoff, remote.tokenRequests ++ [⟨remote.tokenCounter,
      remote.closeCount⟩], by simp [start, at_state, requestCredentials], .inl rfl, ?_⟩
    have quiet := shape.paused
    simp only [at_state, reduceCtorEq, ↓reduceIte, iff_false] at counted quiet
    refine ⟨by simp [quiet], by simp [closed], ?_, ?_, shape.future⟩
    · have none : remote.tokenRequests.countP
          (fun request => decide (request.closeCount = remote.closeCount)) = 0 := by
        simp only [asking] at counted
        omega
      simp only [asking, List.countP_append, none, List.countP_singleton, decide_true, ↓reduceIte]
      omega
    · intro request member
      obtain earlier | same := List.mem_append.mp member
      · exact shape.past request earlier
      · rw [List.mem_singleton.mp same]
  | error =>
    refine ⟨.backoff, true, remote.tokenRequests,
      by simp [start, at_state, backoffAndTryRestarting], .inr rfl, ?_⟩
    simp only [at_state, reduceCtorEq, ↓reduceIte] at counted
    exact ⟨by simp, by simp [closed], by simpa [asking] using counted, shape.past, shape.future⟩
  | starting => simp [isStarted, at_state] at stopped
  | opened => simp [isStarted, at_state] at stopped
  | backoff => simp [isStarted, at_state] at stopped

end RemoteStore

section Queue

variable {waiting front back : List (MutationBatch M)}

/-- The search after the last batch of a prefix finds the batch that follows it. -/
theorem next_after (ascending : (front ++ back).Pairwise
    (fun first second => first.batchId < second.batchId))
    (numbered : ∀ batch ∈ front ++ back, 0 < batch.batchId) :
    (front ++ back).find? (fun batch =>
      (front.getLast?.map MutationBatch.batchId).getD kBatchIdUnknown < batch.batchId) =
      back.head? := by
  have passed : front.find? (fun batch =>
      (front.getLast?.map MutationBatch.batchId).getD kBatchIdUnknown < batch.batchId) = none := by
    obtain rfl | ⟨before, last, rfl⟩ := List.eq_nil_or_concat' front
    · rfl
    · rw [List.find?_eq_none]
      intro batch member
      have sorted := (List.pairwise_append.mp ascending).1
      obtain earlier | same := List.mem_append.mp member
      · have below := (List.pairwise_append.mp sorted).2.2 batch earlier last (by simp)
        simpa using below.le
      · simp [List.mem_singleton.mp same]
  rw [List.find?_append, passed, Option.none_or]
  cases back with
  | nil => rfl
  | cons next rest =>
    have above : (front.getLast?.map MutationBatch.batchId).getD kBatchIdUnknown < next.batchId := by
      obtain rfl | ⟨before, last, rfl⟩ := List.eq_nil_or_concat' front
      · have positive : (0 : Int) < next.batchId := numbered next (by simp)
        show (-1 : Int) < next.batchId
        omega
      · have below := (List.pairwise_append.mp ascending).2.2 last (by simp) next (by simp)
        simpa using below
    rw [List.find?_cons_of_pos (by simpa using above), List.head?_cons]

end Queue

variable [DecidableEq User] [MutationQueue Store User M] [LawfulMutationQueue Store User M]

/-- The batches the current user waits for. -/
def SyncEngine.waiting (engine : SyncEngine Store User) : List (MutationBatch M) :=
  pending engine.store engine.currentUser

namespace FirestoreClient

/-- What holds of the client while a handler works. -/
structure Sound (queued : Nat → Nat) (client : FirestoreClient Store User M) : Prop where
  shape : client.remote.Shape queued
  valid : Valid client.engine.store
  owner : user client.engine.store = client.engine.currentUser
  front : client.remote.writePipeline <+: client.engine.waiting
  bounded : client.remote.writePipeline.length ≤ kMaxPendingWrites
  offline : client.remote.isNetworkEnabled = false →
    client.remote.isStarted = false ∧ client.remote.writePipeline = []
  idle : client.remote.idlenessTimer = true → client.remote.state = .opened ∧
    client.remote.handshakeComplete = true ∧ client.remote.writePipeline = []
  busy : client.remote.isStarted = true →
    ¬ (client.remote.state = .opened ∧ client.remote.handshakeComplete = true) →
    client.remote.writePipeline ≠ []
  carried : ∀ call, client.remote.call = some call → call.user = client.engine.currentUser ∧
    if client.remote.handshakeComplete = true then call.Carries client.remote.writePipeline
    else call.Shakes

/-- What holds of the client once the pipeline has been filled. -/
structure Filled (queued : Nat → Nat) (client : FirestoreClient Store User M) : Prop
    extends client.Sound queued where
  full : client.remote.writePipeline =
    client.engine.waiting.take (if client.remote.isNetworkEnabled then kMaxPendingWrites else 0)
  needed : client.remote.isNetworkEnabled = true → client.remote.writePipeline ≠ [] →
    client.remote.isStarted = true

/-- What holds of the client between two tasks. -/
structure Settled (queued : Nat → Nat) (client : FirestoreClient Store User M) : Prop
    extends client.Filled queued where
  shaken : client.remote.handshakeComplete = true → client.remote.state = .opened

variable {queued : Nat → Nat} {client : FirestoreClient Store User M}

/-- The next batch of the queue goes into the pipeline, and into the call if hands are
shaken. -/
theorem Sound.add (sound : client.Sound queued) (room : client.remote.canAddToWritePipeline = true)
    {batch : MutationBatch M}
    (next : client.remote.writePipeline ++ [batch] <+: client.engine.waiting) :
    ∃ remote, client.remote.addToWritePipeline batch = some remote ∧
      Sound queued ⟨client.engine, remote⟩ ∧ client.remote.Frame remote ∧
      remote.writePipeline = client.remote.writePipeline ++ [batch] := by
  obtain ⟨online, short⟩ : client.remote.isNetworkEnabled = true ∧
      client.remote.writePipeline.length < kMaxPendingWrites := by
    simpa [RemoteStore.canAddToWritePipeline, RemoteStore.canUseNetwork] using room
  have longer : (client.remote.writePipeline ++ [batch]).length ≤ kMaxPendingWrites := by
    rw [List.length_append, List.length_singleton]
    exact short
  by_cases writes : client.remote.state = .opened ∧ client.remote.handshakeComplete = true
  · obtain ⟨opened, shaken⟩ := writes
    obtain ⟨call, isCall⟩ := Option.isSome_iff_exists.mp (sound.shape.called.mpr opened)
    obtain ⟨same, carries⟩ := sound.carried call isCall
    rw [if_pos shaken] at carries
    refine ⟨{ client.remote with
        writePipeline := client.remote.writePipeline ++ [batch]
        idlenessTimer := false
        call := some { call with requests :=
          call.requests ++ [.write batch.mutations client.remote.lastStreamToken] } },
      by simp [RemoteStore.addToWritePipeline, room, opened, shaken, RemoteStore.writeMutations,
        RemoteStore.write, isCall], ?_, ?_, rfl⟩
    · refine ⟨⟨sound.shape.paused, by simp [opened], sound.shape.asked, sound.shape.past,
        sound.shape.future⟩, sound.valid, sound.owner, next, longer, ?_, by simp, by simp, ?_⟩
      · simp [online]
      · rintro _ ⟨⟩
        exact ⟨same, by simpa [shaken] using carries.push batch client.remote.lastStreamToken⟩
    · refine ⟨rfl, rfl, rfl, rfl, rfl, ?_, .rfl⟩
      have fits := carries.length
      simp only [RemoteStore.answered, isCall, shaken, ↓reduceIte]
      rw [List.take_append_of_le_length (by omega)]
  · refine ⟨{ client.remote with writePipeline := client.remote.writePipeline ++ [batch] },
      by simp [RemoteStore.addToWritePipeline, room, writes], ?_, ?_, rfl⟩
    · refine ⟨⟨sound.shape.paused, sound.shape.called, sound.shape.asked, sound.shape.past,
        sound.shape.future⟩, sound.valid, sound.owner, next, longer, ?_, ?_, by simp, ?_⟩
      · simp [online]
      · intro timer
        obtain ⟨opened, shaken, _⟩ := sound.idle timer
        exact absurd ⟨opened, shaken⟩ writes
      · intro call (isCall : client.remote.call = some call)
        obtain ⟨same, carries⟩ := sound.carried call isCall
        have opened := sound.shape.called.mp (by simp [isCall])
        have shaking : client.remote.handshakeComplete = false := by
          simpa [opened] using writes
        exact ⟨same, by simpa [shaking] using carries⟩
    · refine ⟨rfl, rfl, rfl, rfl, rfl, ?_, .rfl⟩
      cases isCall : client.remote.call with
      | none => simp [RemoteStore.answered, isCall]
      | some call =>
        have opened := sound.shape.called.mp (by simp [isCall])
        have shaking : client.remote.handshakeComplete = false := by
          simpa [opened] using writes
        simp [RemoteStore.answered, isCall, shaking]

/-- A stream without work is left to its timer. -/
theorem Sound.markIdle (sound : client.Sound queued)
    (spare : client.remote.writePipeline = []) :
    Sound queued ⟨client.engine, client.remote.markIdle⟩ ∧
      client.remote.Frame client.remote.markIdle ∧
      client.remote.markIdle.writePipeline = [] := by
  unfold RemoteStore.markIdle
  split
  · rename_i opens
    have shaken : client.remote.handshakeComplete = true := by
      by_contra shaking
      exact sound.busy ((RemoteStore.isStarted_iff _).mpr (.inr (.inr opens.1)))
        (by simp [shaking]) spare
    exact ⟨⟨⟨sound.shape.paused, sound.shape.called, sound.shape.asked, sound.shape.past,
      sound.shape.future⟩, sound.valid, sound.owner, sound.front, sound.bounded, sound.offline,
      fun _ => ⟨opens.1, shaken, spare⟩, sound.busy, sound.carried⟩,
      ⟨rfl, rfl, rfl, rfl, rfl, rfl, .rfl⟩, spare⟩
  · exact ⟨sound, .rfl, spare⟩

/-- A pipeline that takes no more batches is full, or the network is off. -/
theorem Sound.complete (sound : client.Sound queued)
    (crowded : client.remote.canAddToWritePipeline = false) :
    client.remote.writePipeline = client.engine.waiting.take
      (if client.remote.isNetworkEnabled then kMaxPendingWrites else 0) := by
  cases online : client.remote.isNetworkEnabled with
  | false => simpa using (sound.offline online).2
  | true =>
    have long : client.remote.writePipeline.length = kMaxPendingWrites := by
      have many : kMaxPendingWrites ≤ client.remote.writePipeline.length := by
        simpa [RemoteStore.canAddToWritePipeline, RemoteStore.canUseNetwork, online] using crowded
      exact le_antisymm sound.bounded many
    obtain ⟨back, split⟩ := sound.front
    rw [← split, if_pos rfl, ← long, List.take_left]

/-- The loop takes batches in the order of the queue until ten are out or none is left. -/
theorem Sound.fillLoop (sound : client.Sound queued) (rounds : Nat)
    (enough : kMaxPendingWrites ≤ client.remote.writePipeline.length + rounds) :
    ∃ remote, client.fillLoop rounds ((client.remote.writePipeline.getLast?.map
        MutationBatch.batchId).getD kBatchIdUnknown) = some ⟨client.engine, remote⟩ ∧
      Sound queued ⟨client.engine, remote⟩ ∧ client.remote.Frame remote ∧
      remote.writePipeline = client.engine.waiting.take
        (if client.remote.isNetworkEnabled then kMaxPendingWrites else 0) := by
  induction rounds generalizing client with
  | zero =>
    refine ⟨_, rfl, sound, .rfl, sound.complete ?_⟩
    simp only [RemoteStore.canAddToWritePipeline, Bool.and_eq_false_iff, decide_eq_false_iff_not]
    omega
  | succ rounds inductionHypothesis =>
    cases room : client.remote.canAddToWritePipeline with
    | false =>
      exact ⟨client.remote, by simp [FirestoreClient.fillLoop, room], sound, .rfl,
        sound.complete room⟩
    | true =>
      obtain ⟨online, short⟩ : client.remote.isNetworkEnabled = true ∧
          client.remote.writePipeline.length < kMaxPendingWrites := by
        simpa [RemoteStore.canAddToWritePipeline, RemoteStore.canUseNetwork] using room
      obtain ⟨back, split⟩ := sound.front
      have found := next_spec sound.valid ((client.remote.writePipeline.getLast?.map
        MutationBatch.batchId).getD kBatchIdUnknown)
      rw [sound.owner, show pending client.engine.store client.engine.currentUser =
        client.remote.writePipeline ++ back from split.symm,
        next_after (split ▸ ascending sound.valid _)
          (split ▸ fun batch member => (numbered sound.valid _ batch member).1)] at found
      cases back with
      | nil =>
        have whole : client.engine.waiting.take
            (if client.remote.isNetworkEnabled then kMaxPendingWrites else 0) =
            client.remote.writePipeline := by
          rw [← split, List.append_nil, if_pos online, List.take_of_length_le short.le]
        cases spare : client.remote.writePipeline.isEmpty with
        | true =>
          have empty : client.remote.writePipeline = [] := by simpa using spare
          obtain ⟨after, frame, nothing⟩ := sound.markIdle empty
          exact ⟨_, by simp [FirestoreClient.fillLoop, room, found, spare], after, frame,
            by rw [whole, nothing, empty]⟩
        | false =>
          exact ⟨client.remote, by simp [FirestoreClient.fillLoop, room, found, spare], sound, .rfl,
            whole.symm⟩
      | cons batch rest =>
        have next : client.remote.writePipeline ++ [batch] <+: client.engine.waiting :=
          ⟨rest, by rw [← split, List.append_assoc, List.singleton_append]⟩
        obtain ⟨added, adds, after, frame, longer⟩ := sound.add room next
        obtain ⟨filled, fills, kept, framed, full⟩ := inductionHypothesis after (by
          show kMaxPendingWrites ≤ added.writePipeline.length + rounds
          rw [longer, List.length_append, List.length_singleton]
          omega)
        refine ⟨filled, ?_, kept, frame.trans framed, ?_⟩
        · rw [show added.writePipeline = _ from longer] at fills
          simpa [FirestoreClient.fillLoop, room, found, adds] using fills
        · rw [full, show added.isNetworkEnabled = _ from frame.enabled]

/-- A stream that is needed is started. -/
theorem Sound.startIfNeeded (sound : client.Sound queued)
    (full : client.remote.writePipeline = client.engine.waiting.take
      (if client.remote.isNetworkEnabled then kMaxPendingWrites else 0)) :
    ∃ remote, client.startIfNeeded = some ⟨client.engine, remote⟩ ∧
      Filled queued ⟨client.engine, remote⟩ ∧ client.remote.Frame remote := by
  cases starts : client.remote.shouldStartWriteStream with
  | false =>
    refine ⟨client.remote, by simp [FirestoreClient.startIfNeeded, starts],
      ⟨sound, full, fun (online : client.remote.isNetworkEnabled = true)
        (work : client.remote.writePipeline ≠ []) => ?_⟩, .rfl⟩
    simpa [RemoteStore.shouldStartWriteStream, RemoteStore.canUseNetwork, online, work]
      using starts
  | true =>
    obtain ⟨⟨online, stopped⟩, work⟩ : (client.remote.isNetworkEnabled = true ∧
        client.remote.isStarted = false) ∧ client.remote.writePipeline ≠ [] := by
      simpa [RemoteStore.shouldStartWriteStream, RemoteStore.canUseNetwork] using starts
    have shut : client.remote.state ≠ .opened := by
      intro opened
      simp [RemoteStore.isStarted, opened] at stopped
    obtain ⟨state, backoff, tokenRequests, started, begun, shape⟩ :=
      RemoteStore.start_spec sound.shape stopped
    refine ⟨{ client.remote with state, backoff, tokenRequests },
      by simp [FirestoreClient.startIfNeeded, RemoteStore.startWriteStream, starts, started],
      ⟨⟨shape, sound.valid, sound.owner, sound.front, sound.bounded, by simp [online], ?_,
        fun _ _ => work, ?_⟩, full, fun _ _ => ?_⟩, ⟨rfl, rfl, rfl, rfl, rfl, rfl, ?_⟩⟩
    · exact fun timer => absurd (sound.idle timer).1 shut
    · intro call (isCall : client.remote.call = some call)
      exact absurd (sound.shape.called.mp (by simp [isCall])) shut
    · obtain rfl | rfl := begun <;> rfl
    · obtain rfl | rfl := begun <;> simp [shut]

/-- Filling the pipeline fails no assertion, fills it, and starts the stream if it is
needed. -/
theorem Sound.fillWritePipeline (sound : client.Sound queued) :
    ∃ remote, client.fillWritePipeline = some ⟨client.engine, remote⟩ ∧
      Filled queued ⟨client.engine, remote⟩ ∧ client.remote.Frame remote := by
  obtain ⟨filled, fills, kept, frame, full⟩ := sound.fillLoop kMaxPendingWrites (by omega)
  rw [← frame.enabled] at full
  obtain ⟨remote, starts, after, framed⟩ := kept.startIfNeeded full
  exact ⟨remote, by simp [FirestoreClient.fillWritePipeline, fills, starts], after,
    frame.trans framed⟩

end FirestoreClient

end Amigo.Firestore
