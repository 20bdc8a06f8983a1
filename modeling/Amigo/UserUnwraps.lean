import Amigo.ClientSteps

/-!
# What needs the signed-in user, and what leaves it alone

Of the client's actions only a sign-in and a sign-out change the signed-in user,
and only a row tap and a confirmed delete choose a post. The user is unwrapped by
force in the two upload closures, once they have a url and their screen's fields,
and whenever a post's page appears. Every other closure neither touches the two
fields nor stops the app for want of a user.
-/

namespace Amigo

namespace Client

/-- The two fields are as they were, and the app did not stop for want of a user. -/
structure Apart (before after : Client) : Prop where
  selected : after.selected = before.selected
  currentUser : after.currentUser = before.currentUser
  trap : after.trap = some .currentUser → before.trap = some .currentUser

/-- Doing nothing is apart. -/
theorem Apart.rfl (client : Client) : Apart client client := ⟨Eq.refl _, Eq.refl _, id⟩

/-- So is what leaves the three alone. -/
theorem Apart.of_same {before after : Client} (selected : after.selected = before.selected)
    (currentUser : after.currentUser = before.currentUser) (trap : after.trap = before.trap) :
    Apart before after :=
  ⟨selected, currentUser, fun stopped => trap ▸ stopped⟩

/-- So are two such changes. -/
theorem Apart.trans {first second third : Client} (before : Apart first second)
    (after : Apart second third) : Apart first third :=
  ⟨after.selected.trans before.selected, after.currentUser.trans before.currentUser,
    fun stopped => before.trap (after.trap stopped)⟩

/-- The app stops for another reason. -/
theorem apart_crash {trap : Trap} (other : trap ≠ .currentUser) (client : Client) :
    Apart client (client.crash trap) := by
  refine ⟨Eq.refl _, Eq.refl _, ?_⟩
  intro stopped
  exact absurd (Option.some.inj stopped) other

instance : Std.Refl Apart := ⟨Apart.rfl⟩

instance : IsTrans Client Apart := ⟨fun _ _ _ => Apart.trans⟩

/-- So are the loops that only bring fields up to date. -/
theorem apart_touches : Relation.ReflTransGen Touch ≤ Apart := by
  apply Relation.reflTransGen_le_of_le
  intro before after touch
  cases touch with
  | drops | refreshes | fills => exact Apart.of_same (Eq.refl _) (Eq.refl _) (Eq.refl _)
  | stops trap field =>
    apply apart_crash
    obtain rfl | rfl | rfl := field <;> decide

/-- So is a merge. -/
theorem apart_merge (platform : Platform) (data : List Post) (client : Client) :
    Apart client (client.merge platform data) := by
  obtain ⟨_, result⟩ | ⟨finalData, _, result⟩ := merge_form platform data client
  · rw [result]
    exact ⟨Eq.refl _, Eq.refl _, fun stopped => by simp [crash] at stopped⟩
  · rw [result]
    exact Apart.of_same (Eq.refl _) (Eq.refl _) (Eq.refl _)

/-- Every delivered callback leaves the two fields alone and unwraps no user. -/
theorem Answers.apart {platform : Platform} {client after : Client} {callback : Callback}
    {answer : Answer} (answers : Answers platform client callback answer after) :
    Apart client after := by
  cases answers with
  | stops trap field =>
    apply apart_crash
    obtain rfl | rfl := field <;> decide
  | refreshes loop => exact apart_touches _ _ (touches_answered platform loop answer client)
  | uncast =>
    refine Apart.trans ?_ (apart_crash (by decide) _)
    exact Apart.of_same (Eq.refl _) (Eq.refl _) (Eq.refl _)
  | merged =>
    refine Apart.trans ?_ (apart_merge platform _ _)
    exact Apart.of_same (Eq.refl _) (Eq.refl _) (Eq.refl _)
  | silent | fetched | missed | removed | announced | edited =>
    exact Apart.of_same (Eq.refl _) (Eq.refl _) (Eq.refl _)

/-- An upload closure that has a user, or does not get as far as the unwrap. -/
theorem Finishes.apart {url : String} {client after : Client} {upload : Upload}
    (finishes : Finishes url client upload after)
    (present : client.savesPost url upload = true → client.currentUser ≠ none) :
    Apart client after := by
  cases finishes with
  | silent => exact Apart.rfl client
  | unfilled trap field =>
    apply apart_crash
    obtain rfl | rfl := field <;> decide
  | signedOut saves absent => exact absurd absent (present saves)
  | posts => exact Apart.of_same (Eq.refl _) (Eq.refl _) (Eq.refl _)

/-- An upload closure that gets as far as the unwrap without a user stops the app. -/
theorem uploaded_stops {url placeText recText : String} {client : Client} {upload : Upload}
    (saves : client.savesPost url upload = true) (absent : client.currentUser = none) :
    client.uploaded url placeText recText upload = client.crash .currentUser := by
  cases upload with
  | newPost screen idPost =>
    simp only [savesPost, bne_iff_ne, ne_eq, Bool.and_eq_true, Option.any_eq_true,
      Option.isSome_iff_exists] at saves
    obtain ⟨saved, view, hasView, ⟨city, hasCity⟩, name, hasName⟩ := saves
    simp only [uploaded, newPostUploaded, saved, ↓reduceIte, hasView, hasCity, hasName, absent]
  | edit screen docId =>
    simp only [savesPost, bne_iff_ne, ne_eq, Bool.and_eq_true, Option.isSome_iff_exists] at saves
    obtain ⟨saved, view, hasView⟩ := saves
    simp only [uploaded, editUploaded, saved, ↓reduceIte, hasView, absent]

/-- A post's page that has a user, or no post. -/
theorem Reloads.apart {client after : Client} (reloads : Reloads client after)
    (present : client.info.isSome = true → client.currentUser ≠ none) : Apart client after := by
  cases reloads with
  | closed => exact apart_crash (by decide) client
  | signedOut info isOpen absent => exact absurd absent (present (by simp [isOpen]))
  | shown => exact Apart.of_same (Eq.refl _) (Eq.refl _) (Eq.refl _)

/-- A post's page that appears without a user stops the app. -/
theorem reloadPost_stops {client : Client} (shows : client.info.isSome = true)
    (absent : client.currentUser = none) : client.reloadPost.trap = some .currentUser := by
  obtain ⟨info, hasInfo⟩ := Option.isSome_iff_exists.mp shows
  simp only [reloadPost, hasInfo, absent, crash]

/-- Opening a post keeps the selection. -/
theorem Reloads.selected {client after : Client} (reloads : Reloads client after) :
    after.selected = client.selected := by
  cases reloads with
  | closed | signedOut | shown => rfl

/-- The actions that set one of the two fields. -/
def setsFields : Action → Bool
  | .confirmDelete _ | .didSelectRowAt _ | .signIn _ | .signOut | .relaunch => true
  | _ => false

/-- The actions that unwrap the user, when they get that far. -/
def needsUser (client : Client) : Action → Bool
  | .uploaded index url _ _ => (client.uploads[index]?).any (client.savesPost url)
  | .infoAppears => client.info.isSome
  | _ => false

/-- Removing an upload leaves the closure of another as it is. -/
theorem savesPost_erased (client : Client) (index : Nat) (url : String) (upload : Upload) :
    { client with uploads := client.uploads.eraseIdx index }.savesPost url upload =
      client.savesPost url upload := by
  cases upload <;> rfl

/-- An action that sets neither field and does not lack a user it unwraps. -/
theorem apart_act {platform : Platform} {cloud : Cloud} {client next : Client} {action : Action}
    (acted : client.act platform cloud action = some next) (other : setsFields action = false)
    (present : client.needsUser action = true → client.currentUser ≠ none) : Apart client next := by
  cases act_acts acted with
  | confirmDelete | didSelectRowAt | signIn | signOut | relaunch => simp [setsFields] at other
  | infoAppears => exact (reloadPost_reloads client).apart present
  | uploaded index url placeText recText upload running =>
    have erased : Apart client { client with uploads := client.uploads.eraseIdx index } :=
      Apart.of_same (Eq.refl _) (Eq.refl _) (Eq.refl _)
    refine erased.trans ((uploaded_finishes url placeText recText _ upload).apart ?_)
    intro saves
    apply present
    rw [savesPost_erased] at saves
    simp only [needsUser, running, Option.any_some, saves]
  | deliver index callback answer =>
    have erased : Apart client { client with pending := client.pending.eraseIdx index } :=
      Apart.of_same (Eq.refl _) (Eq.refl _) (Eq.refl _)
    exact erased.trans (answered_answers platform _ callback answer).apart
  | _ => exact Apart.of_same (Eq.refl _) (Eq.refl _) (Eq.refl _)

/-- An action that lacks a user it unwraps stops the app, and keeps the selected post. -/
theorem act_stops {platform : Platform} {cloud : Cloud} {client next : Client} {action : Action}
    (acted : client.act platform cloud action = some next) (needs : client.needsUser action = true)
    (absent : client.currentUser = none) :
    next.trap = some .currentUser ∧ next.selected = client.selected := by
  cases action with
  | infoAppears =>
    cases Option.some.inj (Option.ite_none_right_eq_some.mp acted).2
    exact ⟨reloadPost_stops needs absent, (reloadPost_reloads client).selected⟩
  | uploaded index url placeText recText =>
    obtain ⟨upload, running, rfl⟩ :=
      Option.map_eq_some_iff.mp (Option.ite_none_right_eq_some.mp acted).2
    have saves : client.savesPost url upload = true := by
      simpa only [needsUser, running, Option.any_some] using needs
    rw [← savesPost_erased client index] at saves
    rw [uploaded_stops saves absent]
    exact ⟨rfl, rfl⟩
  | _ => simp [needsUser] at needs

/-- The actions that choose a post, and the start of a new app. -/
def chooses : Action → Bool
  | .confirmDelete _ | .didSelectRowAt _ | .relaunch => true
  | _ => false

/-- Every other action keeps the selected post. -/
theorem act_selected {platform : Platform} {cloud : Cloud} {client next : Client} {action : Action}
    (acted : client.act platform cloud action = some next) (other : chooses action = false) :
    next.selected = client.selected := by
  by_cases lacks : client.needsUser action = true ∧ client.currentUser = none
  · exact (act_stops acted lacks.1 lacks.2).2
  · cases action with
    | signIn | signOut =>
      cases Option.some.inj (Option.ite_none_right_eq_some.mp acted).2
      rfl
    | confirmDelete | didSelectRowAt | relaunch => simp [chooses] at other
    | _ => exact (apart_act acted rfl (not_and.mp lacks)).selected

end Client

end Amigo
