import Amigo.Session

/-!
# Unwraps of the session's user

Some unwraps of the user stand behind the flag, and the flag is set for a user
only. The others run when something that was started earlier ends: a sign-in or a
registration, the upload of an avatar or of a post, the choice of a photo. A
sign-out clears the flag at once but stops none of these, so they find no user.
They do find one when nothing of the kind is outstanding at a sign-out, and that
is a property of the steps which a run can keep.
-/

namespace Amigo

namespace Session

/-- No unwrap of the user has failed, and the flag is set for a user only. -/
def UserFound (session : Session) : Prop :=
  session.client.trap ≠ some .currentUser ∧
    (session.logedIn = true → session.client.currentUser ≠ none)

instance (session : Session) : Decidable session.UserFound :=
  inferInstanceAs (Decidable (session.client.trap ≠ some .currentUser ∧
    (session.logedIn = true → session.client.currentUser ≠ none)))

/-- A user is signed in when an unguarded unwrap is reached. -/
def UserPresent (session : Session) (event : SessionEvent) : Prop :=
  session.unguarded event = true → session.client.currentUser ≠ none

instance (session : Session) (event : SessionEvent) : Decidable (session.UserPresent event) :=
  inferInstanceAs (Decidable (session.unguarded event = true → session.client.currentUser ≠ none))

/-- The records that name a user do so only while there is one. -/
structure Sound (session : Session) : Prop where
  trap : session.client.trap ≠ some .currentUser
  flag : session.logedIn = true → session.client.currentUser ≠ none
  key : session.uidKey ≠ none → session.client.currentUser ≠ none

/-- Without a user the unwrap stops the app. -/
theorem unwrapUser_stops {session : Session} {run : String → Session}
    (absent : session.client.currentUser = none) :
    (session.unwrapUser run).client.trap = some .currentUser := by
  simp only [unwrapUser, absent, Client.crash]

/-- An unguarded unwrap that is reached without a user stops the app. -/
theorem step_stops {platform : Platform} {session next : Session} {event : SessionEvent}
    (stepped : session.step platform event = some next) (reached : session.unguarded event = true)
    (absent : session.client.currentUser = none) : next.client.trap = some .currentUser := by
  cases event with
  | complete index =>
    have performed := (Option.ite_none_right_eq_some.mp stepped).2
    simp only [perform] at performed
    split at performed
    · cases Option.some.inj performed
      exact unwrapUser_stops absent
    · cases Option.some.inj performed
      exact unwrapUser_stops absent
    · simp at performed
  | imageSaved index url fullname email =>
    have performed := (Option.ite_none_right_eq_some.mp stepped).2
    simp only [unguarded, Bool.and_eq_true, beq_iff_eq, bne_iff_ne, ne_eq] at reached
    simp only [perform, reached.1, avatarSaved, reached.2, ↓reduceIte] at performed
    cases Option.some.inj performed
    exact unwrapUser_stops absent
  | choosePhoto =>
    have performed := (Option.ite_none_right_eq_some.mp stepped).2
    cases Option.some.inj performed
    exact unwrapUser_stops absent
  | uploaded index url placeText recText =>
    have performed := (Option.ite_none_right_eq_some.mp stepped).2
    obtain ⟨client, acted, rfl⟩ := Option.map_eq_some_iff.mp performed
    exact (Client.act_stops acted reached absent).1
  | elsewhere cloud action =>
    have performed := (Option.ite_none_right_eq_some.mp stepped).2
    obtain ⟨_, changed⟩ := Option.ite_none_right_eq_some.mp performed
    obtain ⟨client, acted, rfl⟩ := Option.map_eq_some_iff.mp changed
    exact (Client.act_stops acted reached absent).1
  | _ => simp [unguarded] at reached

/-- The start is sound. -/
theorem sound_init : init.Sound := ⟨by decide, by decide, by decide⟩

/-- A step that finds its user keeps the session sound. -/
theorem Sound.step {platform : Platform} {session next : Session} {event : SessionEvent}
    (sound : session.Sound) (present : session.UserPresent event)
    (stepped : session.step platform event = some next) : next.Sound := by
  cases step_effect stepped with
  | asks | drops | uploads => exact ⟨sound.trap, sound.flag, sound.key⟩
  | grants => exact ⟨sound.trap, fun _ => Option.some_ne_none _, fun _ => Option.some_ne_none _⟩
  | records index request uid client waiting signedIn moved =>
    have user : client.currentUser ≠ none := by
      rw [moved.user, signedIn]
      exact Option.some_ne_none uid
    exact ⟨fun stopped => sound.trap (moved.trap stopped), fun _ => user, fun _ => user⟩
  | logsOut throws =>
    refine ⟨?_, fun flagged => absurd flagged Bool.false_ne_true, fun keyed => absurd rfl keyed⟩
    cases throws with
    | false => exact sound.trap
    | true => exact sound.trap
  | appears =>
    exact ⟨sound.trap, fun flagged => sound.key (Option.isSome_iff_ne_none.mp flagged), sound.key⟩
  | profiles uid flagged signedIn =>
    exact ⟨sound.trap, sound.flag, fun _ => sound.flag flagged⟩
  | moves client moved =>
    exact ⟨fun stopped => sound.trap (moved.trap stopped),
      fun flagged => moved.user ▸ sound.flag flagged, fun keyed => moved.user ▸ sound.key keyed⟩
  | saves client moved user =>
    exact ⟨fun stopped => sound.trap (moved.trap stopped), fun _ => moved.user ▸ user,
      fun keyed => moved.user ▸ sound.key keyed⟩
  | stops _ absent reached =>
    obtain unguarded | flagged := reached
    · exact absurd absent (present unguarded)
    · exact absurd absent (sound.flag flagged)
  | starts =>
    exact ⟨(Option.some_ne_none _).symm, fun flagged => absurd flagged Bool.false_ne_true, sound.key⟩

/-- The user's steps when the session behaves as if every unwrap were guarded: a
sign-out succeeds only when nothing that will unwrap the user is outstanding, and a
photo is chosen, a post's page appears and a post's upload starts only while the
flag is set. -/
def Orderly (session : Session) : SessionEvent → Prop
  | .logoutButtom false =>
    (∀ request ∈ session.requests, request.underway = false) ∧ session.client.uploads = []
  | .choosePhoto | .elsewhere _ .infoAppears => session.logedIn = true
  | event => session.startsUpload event = true → session.logedIn = true

instance (session : Session) (event : SessionEvent) : Decidable (session.Orderly event) := by
  unfold Orderly
  split <;> infer_instance

/-- While something outstanding will unwrap the user, there is one. -/
structure Outstanding (session : Session) : Prop where
  requests : ∀ request ∈ session.requests, request.underway = true → session.client.currentUser ≠ none
  uploads : session.client.uploads ≠ [] → session.client.currentUser ≠ none

/-- In orderly steps every unwrap that the flag does not guard finds its user. -/
theorem Orderly.present {platform : Platform} {session next : Session} {event : SessionEvent}
    (orderly : session.Orderly event) (sound : session.Sound) (outstanding : session.Outstanding)
    (stepped : session.step platform event = some next) : session.UserPresent event := by
  intro reached
  cases event with
  | complete index =>
    have performed := (Option.ite_none_right_eq_some.mp stepped).2
    simp only [perform] at performed
    split at performed
    · rename_i waiting
      exact outstanding.requests _ (List.mem_of_getElem? waiting) rfl
    · rename_i waiting
      exact outstanding.requests _ (List.mem_of_getElem? waiting) rfl
    · simp at performed
  | imageSaved index url fullname email =>
    simp only [unguarded, Bool.and_eq_true, beq_iff_eq] at reached
    exact outstanding.requests _ (List.mem_of_getElem? reached.1) rfl
  | choosePhoto => exact sound.flag orderly
  | uploaded index url placeText recText =>
    obtain ⟨upload, running, _⟩ := (Option.any_eq_true _ _).mp reached
    exact outstanding.uploads (List.ne_nil_of_mem (List.mem_of_getElem? running))
  | elsewhere cloud action =>
    have performed := (Option.ite_none_right_eq_some.mp stepped).2
    have isOutside := (Option.ite_none_right_eq_some.mp performed).1
    cases action with
    | infoAppears => exact sound.flag orderly
    | uploaded => simp [outside] at isOutside
    | _ => simp [unguarded, Client.needsUser] at reached
  | _ => simp [unguarded] at reached

/-- An orderly step starts uploads under the flag only. -/
theorem Orderly.flag {session : Session} {event : SessionEvent} (orderly : session.Orderly event)
    (starts : session.startsUpload event = true) : session.logedIn = true := by
  unfold Orderly at orderly
  split at orderly
  · simp [startsUpload] at starts
  · exact orderly
  · exact orderly
  · exact orderly starts

/-- Orderly steps keep a user for what is outstanding. -/
theorem Outstanding.step {platform : Platform} {session next : Session} {event : SessionEvent}
    (outstanding : session.Outstanding) (sound : session.Sound) (orderly : session.Orderly event)
    (stepped : session.step platform event = some next) : next.Outstanding := by
  have present := orderly.present sound outstanding stepped
  cases step_effect stepped with
  | asks request early =>
    refine ⟨?_, outstanding.uploads⟩
    intro other member underway
    obtain before | new := List.mem_append.mp member
    · exact outstanding.requests other before underway
    · rw [List.mem_singleton.mp new, early] at underway
      exact absurd underway Bool.false_ne_true
  | grants => exact ⟨fun _ _ _ => Option.some_ne_none _, fun _ => Option.some_ne_none _⟩
  | drops =>
    exact ⟨fun other member => outstanding.requests other (List.mem_of_mem_eraseIdx member),
      outstanding.uploads⟩
  | uploads _ _ user => exact ⟨fun _ _ _ => user, fun _ => user⟩
  | records index request uid client waiting signedIn moved =>
    have user : client.currentUser ≠ none := by
      rw [moved.user, signedIn]
      exact Option.some_ne_none uid
    exact ⟨fun _ _ _ => user, fun _ => user⟩
  | logsOut throws =>
    cases throws with
    | true => exact ⟨outstanding.requests, outstanding.uploads⟩
    | false =>
      obtain ⟨noRequest, noUpload⟩ := orderly
      refine ⟨?_, fun running => absurd noUpload running⟩
      intro request member underway
      rw [noRequest request member] at underway
      exact absurd underway Bool.false_ne_true
  | appears | profiles => exact ⟨outstanding.requests, outstanding.uploads⟩
  | moves client moved =>
    refine ⟨fun request member underway => moved.user ▸ outstanding.requests request member underway, ?_⟩
    intro running
    rw [moved.user]
    obtain before | starts := moved.uploads running
    · exact outstanding.uploads before
    · exact sound.flag (orderly.flag starts)
  | saves client moved user =>
    exact ⟨fun _ _ _ => moved.user ▸ user, fun _ => moved.user ▸ user⟩
  | stops _ absent reached =>
    obtain unguarded | flagged := reached
    · exact absurd absent (present unguarded)
    · exact absurd absent (sound.flag flagged)
  | starts =>
    exact ⟨fun _ member => absurd member List.not_mem_nil, fun running => absurd rfl running⟩

/-- At the start nothing is outstanding. -/
theorem outstanding_init : init.Outstanding :=
  ⟨fun _ member => absurd member List.not_mem_nil, fun running => absurd rfl running⟩

/-- In every run, each unwrap of the user finds one and the flag is set for a user
only, exactly when each unwrap that the flag does not guard is reached while a user
is signed in. Orderly steps suffice. -/
theorem unwraps_find_user (platform : Platform) {events : List SessionEvent} {last : Session}
    (run : GuardedRuns.Runs (step platform) GuardedRuns.unguarded init events last) :
    ((∀ before event after,
        (before, event, after) ∈ GuardedRuns.transitions (step platform) init events →
        UserFound after) ↔
      ∀ before event after,
        (before, event, after) ∈ GuardedRuns.transitions (step platform) init events →
        UserPresent before event) ∧
    ((∀ before event after,
        (before, event, after) ∈ GuardedRuns.transitions (step platform) init events →
        Orderly before event) →
      ∀ before event after,
        (before, event, after) ∈ GuardedRuns.transitions (step platform) init events →
        UserFound after) := by
  constructor
  · constructor
    · intro found before event after member reached absent
      have stopped := step_stops (GuardedRuns.step_of_transition member) reached absent
      exact (found before event after member).1 stopped
    · intro present
      have guarded : GuardedRuns.Runs (step platform) UserPresent init events last :=
        run.guarded present
      intro before event after member
      have sound : Sound after :=
        guarded.every_step (fun _ _ _ kept admitted stepped => kept.step admitted stepped)
          (fun _ _ _ kept admitted stepped => kept.step admitted stepped) sound_init
          before event after member
      exact ⟨sound.trap, sound.flag⟩
  · intro orderly
    have guarded : GuardedRuns.Runs (step platform) Orderly init events last := run.guarded orderly
    intro before event after member
    have sound : Sound after :=
      guarded.every_step
        (fun _ _ _ (kept : _ ∧ _) admitted stepped =>
          ⟨kept.1.step (admitted.present kept.1 kept.2 stepped) stepped,
            kept.2.step kept.1 admitted stepped⟩)
        (fun _ _ _ kept admitted stepped =>
          kept.1.step (admitted.present kept.1 kept.2 stepped) stepped)
        ⟨sound_init, outstanding_init⟩ before event after member
    exact ⟨sound.trap, sound.flag⟩

/-- A cloud with one selected city and one user. -/
def oneUser : Cloud :=
  (Write.setData .cities "city" [("title", .value (.string "Haifa"))]).commit ⟨2, 0⟩
    ((User.write ⟨"ann", "Ann", "", ""⟩).commit ⟨1, 0⟩ (fun _ => []))

/-- The user signs in, opens the screen of a new post and starts its upload. -/
def startPost : List SessionEvent :=
  [.connect, .grant 0 "ann", .complete 0] ++
    [.openAdd, .answer 0, .deliver 0, .answer 0, .deliver 0, .postBtn 0 "A"].map (.elsewhere oneUser)

/-- A sign-out after the upload is orderly. -/
theorem unwraps_find_user_later : ∃ last,
    GuardedRuns.Runs (step Platform.plain) GuardedRuns.unguarded init
      (startPost ++ [.uploaded 0 "url" "place" "text", .logoutButtom false]) last ∧
    last.client.outbox.length = 1 ∧
    ∀ before event after,
      (before, event, after) ∈ GuardedRuns.transitions (step Platform.plain) init
        (startPost ++ [.uploaded 0 "url" "place" "text", .logoutButtom false]) →
      UserFound after := by
  have ran : ((GuardedRuns.exec (step Platform.plain) init
      (startPost ++ [.uploaded 0 "url" "place" "text", .logoutButtom false])).any fun last =>
        decide (last.client.outbox.length = 1)) = true := by
    decide +kernel
  obtain ⟨last, run, queued⟩ := GuardedRuns.exists_run ran
  refine ⟨last, run, queued, (unwraps_find_user _ run).2 ?_⟩
  have orderly : ∀ transition ∈ GuardedRuns.transitions (step Platform.plain) init
      (startPost ++ [.uploaded 0 "url" "place" "text", .logoutButtom false]),
      Orderly transition.1 transition.2.1 := by
    decide +kernel
  intro before event after member
  exact orderly _ member

/-- A sign-out before the upload ends leaves its closure without a user. -/
theorem unwraps_not_always_find_user : ¬ ∀ (events : List SessionEvent) (last : Session),
    GuardedRuns.Runs (step Platform.plain) GuardedRuns.unguarded init events last →
    ∀ before event after,
      (before, event, after) ∈ GuardedRuns.transitions (step Platform.plain) init events →
      UserFound after := by
  intro always
  have ran : ((GuardedRuns.exec (step Platform.plain) init
      (startPost ++ [.logoutButtom false])).any fun before =>
        (before.step Platform.plain (.uploaded 0 "url" "place" "text")).any fun after =>
          decide (¬ UserFound after)) = true := by
    decide +kernel
  obtain ⟨before, after, run, transition, fails⟩ := GuardedRuns.exists_transition ran
  exact fails (always _ _ run before _ after transition)

end Session

end Amigo
