import Amigo.Session

/-!
# The three records of the session

The key and the service's user outlive the app, and the flag is set again from the
key whenever the Home screen appears. Between the service's change of its user and
the completion that records it the three records differ; the completion mends
that. So a session is in order when its records agree or such a completion is
still to come, and the steps that can break the order are those that end the wait
without recording: a failed avatar upload, a sign-out that throws after the flag
and the key are cleared, and the end of the app.
-/

namespace Amigo

namespace Session

/-- The flag, the key and the user say the same. -/
structure Agree (session : Session) : Prop where
  flag : session.logedIn = true ↔ session.uidKey ≠ none
  key : session.uidKey ≠ none ↔ session.client.currentUser ≠ none
  value : ∀ uid, session.uidKey = some uid → session.client.currentUser = some uid

/-- The key holds the user, and so does the flag once the Home screen has set it. -/
def Settled (session : Session) : Prop :=
  session.uidKey = session.client.currentUser ∧
    (session.homeAppeared = true → session.logedIn = session.client.currentUser.isSome)

instance (session : Session) : Decidable session.Settled :=
  inferInstanceAs (Decidable (session.uidKey = session.client.currentUser ∧
    (session.homeAppeared = true → session.logedIn = session.client.currentUser.isSome)))

/-- A completion that records the user is still to come. -/
def Underway (session : Session) : Prop :=
  ∃ request ∈ session.requests, request.underway = true

instance (session : Session) : Decidable session.Underway :=
  inferInstanceAs (Decidable (∃ request ∈ session.requests, request.underway = true))

/-- The steps that end a wait, or the session, without recording its user do so only
when the records agree already or another completion will record it. -/
def KeepsRecords (session : Session) : SessionEvent → Prop
  | .imageFailed index => session.requests[index]? = some .avatar →
      session.Settled ∨ (session.withoutRequest index).Underway
  | .imageSaved index url _ _ => session.requests[index]? = some .avatar → url = "" →
      session.Settled ∨ (session.withoutRequest index).Underway
  | .logoutButtom true => session.client.currentUser = none ∨ session.Underway
  | .relaunch => session.uidKey = session.client.currentUser
  | _ => True

instance (session : Session) (event : SessionEvent) : Decidable (session.KeepsRecords event) := by
  unfold KeepsRecords
  split <;> infer_instance

/-- A running session is settled, or will be. -/
def InOrder (session : Session) : Prop :=
  session.client.trap = none → session.Settled ∨ session.Underway

/-- Removing a request that records nothing leaves what is underway. -/
theorem Underway.withoutRequest {session : Session} {index : Nat} {request : Request}
    (underway : session.Underway) (waiting : session.requests[index]? = some request)
    (early : request.underway = false) : (session.withoutRequest index).Underway := by
  obtain ⟨other, member, records⟩ := underway
  obtain ⟨place, found⟩ := List.mem_iff_getElem?.mp member
  have elsewhere : place ≠ index := by
    intro here
    rw [here, waiting] at found
    rw [← Option.some.inj found, early] at records
    exact Bool.false_ne_true records
  exact ⟨other, List.mem_eraseIdx_iff_getElem?.mpr ⟨place, elsewhere, found⟩, records⟩

/-- A session in order stays so under a step that keeps its records. -/
theorem InOrder.step {platform : Platform} {session next : Session} {event : SessionEvent}
    (inOrder : session.InOrder) (keeps : session.KeepsRecords event)
    (stepped : session.step platform event = some next) : next.InOrder := by
  intro running
  by_cases starting : event = .relaunch
  · subst starting
    cases Option.some.inj stepped
    exact Or.inl ⟨keeps, fun appeared => absurd appeared Bool.false_ne_true⟩
  have before := inOrder (step_running stepped starting)
  cases step_effect stepped with
  | asks request early =>
    obtain settled | ⟨other, member, records⟩ := before
    · exact Or.inl settled
    · exact Or.inr ⟨other, List.mem_append_left _ member, records⟩
  | grants index uid request granted waiting changed =>
    obtain ⟨inside, _⟩ := List.getElem?_eq_some_iff.mp waiting
    exact Or.inr ⟨granted, List.mem_set inside granted, changed⟩
  | drops index request waiting ended =>
    obtain early | ⟨rfl, failed⟩ := ended
    · obtain settled | underway := before
      · exact Or.inl settled
      · exact Or.inr (underway.withoutRequest waiting early)
    · obtain rfl | ⟨fullname, email, rfl⟩ := failed
      · exact keeps waiting
      · exact keeps waiting rfl
  | uploads => exact Or.inr ⟨.avatar, List.mem_append_right _ List.mem_cons_self, rfl⟩
  | records index request uid client waiting signedIn moved =>
    have user : client.currentUser = some uid := moved.user.trans signedIn
    exact Or.inl ⟨user.symm, fun _ => by simp only [user, Option.isSome_some]⟩
  | logsOut throws =>
    cases throws with
    | false => exact Or.inl ⟨rfl, fun _ => rfl⟩
    | true =>
      obtain absent | underway := keeps
      · exact Or.inl ⟨absent.symm, fun _ => by simp only [logout, ↓reduceIte, absent, Option.isSome_none]⟩
      · exact Or.inr underway
  | appears =>
    obtain settled | underway := before
    · exact Or.inl ⟨settled.1, fun _ => by simp only [settled.1]⟩
    · exact Or.inr underway
  | profiles uid flagged signedIn =>
    exact Or.inl ⟨signedIn.symm, fun _ => by simp only [flagged, signedIn, Option.isSome_some]⟩
  | moves client moved =>
    obtain settled | underway := before
    · exact Or.inl ⟨moved.user ▸ settled.1, moved.user ▸ settled.2⟩
    · exact Or.inr underway
  | saves client moved user =>
    obtain settled | underway := before
    · refine Or.inl ⟨moved.user ▸ settled.1, fun _ => ?_⟩
      exact (moved.user ▸ Option.isSome_iff_ne_none.mpr user).symm
    · exact Or.inr underway
  | stops _ _ _ stopped =>
    rw [stopped] at running
    exact absurd running (Option.some_ne_none _)
  | starts => exact absurd rfl starting

/-- Conversely, a step that leaves the session in order has kept its records. -/
theorem keepsRecords_of_inOrder {platform : Platform} {session next : Session} {event : SessionEvent}
    (stepped : session.step platform event = some next) (inOrder : next.InOrder) :
    session.KeepsRecords event := by
  cases event with
  | imageFailed index =>
    obtain ⟨running, performed⟩ := Option.ite_none_right_eq_some.mp stepped
    intro waiting
    simp only [perform, waiting] at performed
    cases Option.some.inj performed
    exact inOrder running
  | imageSaved index url fullname email =>
    obtain ⟨running, performed⟩ := Option.ite_none_right_eq_some.mp stepped
    intro waiting empty
    simp only [perform, waiting, avatarSaved, empty, ↓reduceIte] at performed
    cases Option.some.inj performed
    exact inOrder running
  | logoutButtom throws =>
    obtain ⟨running, performed⟩ := Option.ite_none_right_eq_some.mp stepped
    cases Option.some.inj performed
    cases throws with
    | false => trivial
    | true =>
      obtain settled | underway := inOrder running
      · exact Or.inl settled.1.symm
      · exact Or.inr underway
  | relaunch =>
    cases Option.some.inj stepped
    obtain settled | ⟨request, member, _⟩ := inOrder rfl
    · exact settled.1
    · exact absurd member List.not_mem_nil
  | _ => trivial

/-- At the start no request is underway. -/
theorem inOrder_init : init.InOrder := fun _ => Or.inl ⟨rfl, fun _ => rfl⟩

/-- A settled session's records agree once the Home screen has appeared. -/
theorem Settled.agree {session : Session} (settled : session.Settled)
    (appeared : session.homeAppeared = true) : session.Agree where
  flag := by rw [settled.2 appeared, settled.1, Option.isSome_iff_ne_none]
  key := by rw [settled.1]
  value := fun uid keyed => settled.1 ▸ keyed

/-- In every run whose steps keep the records, whatever the outcomes of the calls,
the records agree in each running state with no request outstanding, once the Home
screen has appeared. -/
theorem records_agree (platform : Platform) {events : List SessionEvent} {last : Session}
    (run : GuardedRuns.Runs (step platform) KeepsRecords init events last)
    (running : last.client.trap = none) (appeared : last.homeAppeared = true)
    (idle : last.requests = []) : last.Agree := by
  have inOrder : last.InOrder :=
    run.invariant (fun _ _ _ kept admitted stepped => kept.step admitted stepped) inOrder_init
  obtain settled | ⟨request, member, _⟩ := inOrder running
  · exact settled.agree appeared
  · rw [idle] at member
    exact absurd member List.not_mem_nil

/-- A registration whose avatar is saved, seen from Home. -/
theorem records_agree_registered : ∃ last,
    GuardedRuns.Runs (step Platform.plain) KeepsRecords init
      [.homeAppears, .register, .grant 0 "ann", .complete 0, .imageSaved 0 "url" "Ann" "mail",
        .homeAppears] last ∧
    last.uidKey = some "ann" ∧ last.Agree := by
  have ran : ((GuardedRuns.execGuarded (step Platform.plain) KeepsRecords init
      [.homeAppears, .register, .grant 0 "ann", .complete 0, .imageSaved 0 "url" "Ann" "mail",
        .homeAppears]).any fun last =>
          decide ((last.client.trap = none ∧ last.homeAppeared = true) ∧
            last.requests = [] ∧ last.uidKey = some "ann")) = true := by
    decide +kernel
  obtain ⟨last, run, ⟨running, appeared⟩, idle, keyed⟩ := GuardedRuns.exists_guarded_run ran
  exact ⟨last, run, keyed, records_agree _ run running appeared idle⟩

/-- When the avatar's upload fails, the service has a user that no record names. -/
theorem records_not_always_agree : ¬ ∀ (events : List SessionEvent) (last : Session),
    GuardedRuns.Runs (step Platform.plain) GuardedRuns.unguarded init events last →
    last.client.trap = none → last.homeAppeared = true → last.requests = [] →
    last.client.uploads = [] → last.Agree := by
  intro always
  have ran : ((GuardedRuns.exec (step Platform.plain) init
      [.homeAppears, .register, .grant 0 "ann", .complete 0, .imageFailed 0]).any fun last =>
        decide ((last.client.trap = none ∧ last.homeAppeared = true) ∧
          (last.requests = [] ∧ last.client.uploads = []) ∧
          last.uidKey = none ∧ last.client.currentUser = some "ann")) = true := by
    decide +kernel
  obtain ⟨last, run, ⟨running, appeared⟩, ⟨idle, noUpload⟩, noKey, user⟩ :=
    GuardedRuns.exists_run ran
  have agree := always _ last run running appeared idle noUpload
  have keyed : last.uidKey ≠ none := agree.key.mpr (by simp [user])
  exact keyed noKey

end Session

end Amigo
