import Amigo.DataFlow

/-!
# Every city is a pin of the map

A client filters the posts it fetches by one city, splices another into its read of the
table, and each screen for a new post titles it with a third. All three come from reads
of the cities collection, and the one write to that collection stores the title of an
annotation on the map. So a city a client works in is a pin, and none of them ends a
literal.
-/

namespace Amigo

/-- Pins are plain texts. -/
theorem Platform.pins_plain {platform : Platform} {title : String} (isPin : title ∈ platform.pins) :
    PlainText title := by
  simp only [pins, List.mem_cons, List.not_mem_nil, or_false] at isPin
  obtain rfl | rfl | rfl | rfl | rfl | rfl := isPin
  · decide
  · decide
  · decide
  · decide
  · decide
  · exact platform.plainLocation

/-- The document has no title but a pin. -/
def Platform.Marks (platform : Platform) (document : Document) : Prop :=
  ∀ title, document.data.string "title" = some title → title ∈ platform.pins

/-- The write that selects a pin. -/
def selection (title : String) : Write := .setData .cities "city" [("title", .value (.string title))]

/-- The last title is the one before, or of one of the documents. -/
theorem lastTitle_origin {city : Option String} {documents : List Document} {title : String}
    (isLast : lastTitle city documents = some title) :
    city = some title ∨ ∃ document ∈ documents, document.data.string "title" = some title := by
  induction documents generalizing city with
  | nil => exact Or.inl isLast
  | cons document rest inductionHypothesis =>
    obtain here | ⟨other, member, hasTitle⟩ := inductionHypothesis isLast
    · exact Or.inr ⟨document, List.mem_cons_self, here⟩
    · exact Or.inr ⟨other, List.mem_cons_of_mem _ member, hasTitle⟩

namespace Client

/-- The client works in a city: it filters by it, splices it, or titles a new post with it. -/
inductive WorksIn (client : Client) (city : String) : Prop
  | filters (kept : client.firebaseCity = some city)
  | splices (kept : client.postCity = city) (read : city ≠ "")
  | titles (index : Nat) (screen : AddScreen) (shown : client.adds[index]? = some screen)
      (filled : screen.city = some city)

/-- Only three fields decide it. -/
theorem WorksIn.of_same {before after : Client} {city : String} (works : after.WorksIn city)
    (filters : after.firebaseCity = before.firebaseCity) (splices : after.postCity = before.postCity)
    (titles : after.adds = before.adds) : before.WorksIn city := by
  cases works with
  | filters kept => exact .filters (filters ▸ kept)
  | splices kept read => exact .splices (splices ▸ kept) read
  | titles index screen shown filled => exact .titles index screen (titles ▸ shown) filled

/-- One of the documents has the city as its title. -/
def Titles (documents : List Document) (city : String) : Prop :=
  ∃ document ∈ documents, document.data.string "title" = some city

/-- Titles of documents are titles of more of them. -/
theorem Titles.cons {document : Document} {documents : List Document} {city : String} :
    Titles documents city → Titles (document :: documents) city :=
  fun ⟨other, member, hasTitle⟩ => ⟨other, List.mem_cons_of_mem _ member, hasTitle⟩

/-- A lookup leaves the cities. -/
theorem deleterAnswered_worksIn {platform : Platform} {receiver : Post} {documents : List Document}
    {client : Client} {city : String}
    (works : (deleterAnswered platform receiver documents client).WorksIn city) :
    client.WorksIn city := by
  induction documents generalizing client with
  | nil => exact works
  | cons document rest inductionHypothesis =>
    rw [deleterAnswered] at works
    split at works
    · exact works.of_same rfl rfl rfl
    · exact (inductionHypothesis works).of_same rfl rfl rfl

/-- A refresh sets the feed's city to titles it read. -/
theorem cityRefreshed_worksIn {documents : List Document} {client : Client} {city : String}
    (works : (cityRefreshed documents client).WorksIn city) :
    client.WorksIn city ∨ Titles documents city := by
  induction documents generalizing client with
  | nil => exact Or.inl works
  | cons document rest inductionHypothesis =>
    rw [cityRefreshed] at works
    split at works
    · exact Or.inl (works.of_same rfl rfl rfl)
    · rename_i title hasTitle
      obtain here | later := inductionHypothesis works
      · cases here with
        | filters kept => exact Or.inl (.filters kept)
        | splices kept => exact Or.inr ⟨document, List.mem_cons_self, kept ▸ hasTitle⟩
        | titles index screen shown filled => exact Or.inl (.titles index screen shown filled)
      · exact Or.inr later.cons

/-- A new post's screen is given titles it read. -/
theorem addCityAnswered_worksIn {screen : Nat} {documents : List Document} {client : Client}
    {city : String} (works : (addCityAnswered screen documents client).WorksIn city) :
    client.WorksIn city ∨ Titles documents city := by
  induction documents generalizing client with
  | nil => exact Or.inl works
  | cons document rest inductionHypothesis =>
    rw [addCityAnswered] at works
    split at works
    · exact Or.inl (works.of_same rfl rfl rfl)
    · rename_i title hasTitle
      obtain here | later := inductionHypothesis works
      · cases here with
        | filters kept => exact Or.inl (.filters kept)
        | splices kept read => exact Or.inl (.splices kept read)
        | titles index other shown filled =>
          rw [List.getElem?_modify, Option.map_eq_map, Option.map_eq_some_iff] at shown
          obtain ⟨older, isOlder, isOther⟩ := shown
          split at isOther
          · rw [← isOther] at filled
            exact Or.inr ⟨document, List.mem_cons_self, hasTitle.trans filled⟩
          · exact Or.inl (.titles index other (isOlder.trans (congrArg some isOther)) filled)
      · exact Or.inr later.cons

/-- A new post's screen is given a name beside its city. -/
theorem addNameAnswered_worksIn {screen : Nat} {uid : Option String} {documents : List Document}
    {client : Client} {city : String}
    (works : (addNameAnswered screen uid documents client).WorksIn city) : client.WorksIn city := by
  induction documents generalizing client with
  | nil => exact works
  | cons document rest inductionHypothesis =>
    rw [addNameAnswered] at works
    split at works
    · split at works
      · exact works.of_same rfl rfl rfl
      · cases inductionHypothesis works with
        | filters kept => exact .filters kept
        | splices kept read => exact .splices kept read
        | titles index other shown filled =>
          rw [List.getElem?_modify, Option.map_eq_map, Option.map_eq_some_iff] at shown
          obtain ⟨older, isOlder, isOther⟩ := shown
          refine .titles index older isOlder ?_
          rw [← filled, ← isOther]
          split <;> rfl
    · exact inductionHypothesis works

/-- The filter's city after its read was read there, or was kept. -/
theorem cityRead_origin {client : Client} {answer : Answer} {city : String}
    (kept : client.cityRead answer = some city) :
    client.firebaseCity = some city ∨
      ∃ documents, answer = .snapshot documents ∧ Titles documents city := by
  cases answer with
  | failed => exact Or.inl kept
  | snapshot documents =>
    exact (lastTitle_origin kept).imp id (fun titles => ⟨documents, rfl, titles⟩)

/-- A delivered read leaves the cities, or sets one to a title it read from them. -/
theorem Answers.worksIn {platform : Platform} {client after : Client} {callback : Callback}
    {answer : Answer} (answers : Answers platform client callback answer after) {city : String}
    (works : after.WorksIn city) : client.WorksIn city ∨ ∃ documents,
      callback.collection = .cities ∧ answer = .snapshot documents ∧ Titles documents city := by
  have filters {next : AfterFetch} {snapshot : List Document} (asked : callback = .fetchCities snapshot next)
      (kept : { client with firebaseCity := client.cityRead answer }.WorksIn city) :
      client.WorksIn city ∨ ∃ documents,
        callback.collection = .cities ∧ answer = .snapshot documents ∧ Titles documents city := by
    cases kept with
    | filters kept =>
      obtain older | ⟨documents, isRead, titles⟩ := cityRead_origin kept
      · exact Or.inl (.filters older)
      · exact Or.inr ⟨documents, by rw [asked]; rfl, isRead, titles⟩
    | splices kept read => exact Or.inl (.splices kept read)
    | titles index screen shown filled => exact Or.inl (.titles index screen shown filled)
  cases answers with
  | refreshes loop =>
    cases answer with
    | failed =>
      obtain ⟨receiver, rfl⟩ | rfl | ⟨screen, rfl⟩ | ⟨screen, uid, rfl⟩ := loop <;> exact Or.inl works
    | snapshot documents =>
      obtain ⟨receiver, rfl⟩ | rfl | ⟨screen, rfl⟩ | ⟨screen, uid, rfl⟩ := loop
      · exact Or.inl (deleterAnswered_worksIn works)
      · exact (cityRefreshed_worksIn works).imp id (fun titles => ⟨documents, rfl, rfl, titles⟩)
      · exact (addCityAnswered_worksIn works).imp id (fun titles => ⟨documents, rfl, rfl, titles⟩)
      · exact Or.inl (addNameAnswered_worksIn works)
  | uncast snapshot next asked => exact filters asked (works.of_same rfl rfl rfl)
  | merged snapshot data asked =>
    refine filters asked ?_
    obtain ⟨_, result⟩ | ⟨finalData, _, result⟩ :=
      merge_form platform data { client with firebaseCity := client.cityRead answer }
    · exact works.of_same (by rw [result]; rfl) (by rw [result]; rfl) (by rw [result]; rfl)
    · exact works.of_same (by rw [result]; rfl) (by rw [result]; rfl) (by rw [result]; rfl)
  | missed snapshot postIds asked => exact filters asked works
  | removed snapshot postIds data asked => exact filters asked (works.of_same rfl rfl rfl)
  | silent | stops | fetched | announced | edited => exact Or.inl (works.of_same rfl rfl rfl)

/-- Opening a post changes no city. -/
theorem Reloads.worksIn {client after : Client} (reloads : Reloads client after) {city : String}
    (works : after.WorksIn city) : client.WorksIn city := by
  cases reloads with
  | closed | signedOut | shown => exact works.of_same rfl rfl rfl

/-- Nor does the end of an upload. -/
theorem Finishes.worksIn {url : String} {client after : Client} {upload : Upload}
    (finishes : Finishes url client upload after) {city : String} (works : after.WorksIn city) :
    client.WorksIn city := by
  cases finishes with
  | silent | unfilled | signedOut | posts => exact works.of_same rfl rfl rfl

/-- A city a client works in after a step is one before, or was read from the cities. -/
theorem act_worksIn {platform : Platform} {cloud : Cloud} {client after : Client} {action : Action}
    (acted : client.act platform cloud action = some after) {city : String}
    (works : after.WorksIn city) : client.WorksIn city ∨ ∃ callback documents,
      ⟨callback, some (.snapshot documents)⟩ ∈ client.pending ∧ callback.collection = .cities ∧
        Titles documents city := by
  cases act_acts acted with
  | didSelectRowAt => exact Or.inl (((reloadPost_reloads _).worksIn works).of_same rfl rfl rfl)
  | infoAppears => exact Or.inl ((reloadPost_reloads client).worksIn works)
  | openAdd =>
    cases works with
    | filters kept => exact Or.inl (.filters kept)
    | splices kept read => exact Or.inl (.splices kept read)
    | titles index screen shown filled =>
      have listed : (client.adds ++ [AddScreen.mk none none])[index]? = some screen := shown
      rw [List.getElem?_append] at listed
      split at listed
      · exact Or.inl (.titles index screen listed filled)
      · rw [List.mem_singleton.mp (List.mem_of_getElem? listed)] at filled
        simp at filled
  | uploaded index url placeText recText upload =>
    exact Or.inl (((uploaded_finishes url placeText recText _ upload).worksIn works).of_same rfl rfl rfl)
  | deliver index callback answer ready =>
    obtain same | ⟨documents, ofCities, rfl, titles⟩ := (answered_answers platform
      { client with pending := client.pending.eraseIdx index } callback answer).worksIn works
    · exact Or.inl (same.of_same rfl rfl rfl)
    · exact Or.inr ⟨callback, documents, List.mem_of_getElem? ready, ofCities, titles⟩
  | relaunch =>
    cases works with
    | filters kept => simp [relaunch] at kept
    | splices kept read => exact absurd kept.symm read
    | titles index screen shown => simp [relaunch] at shown
  | _ => exact Or.inl (works.of_same rfl rfl rfl)

/-- A client whose cities are pins. -/
structure Pinned (platform : Platform) (client : Client) : Prop where
  works : ∀ city, client.WorksIn city → city ∈ platform.pins
  held : ∀ callback documents, ⟨callback, some (.snapshot documents)⟩ ∈ client.pending →
    callback.collection = .cities → ∀ document ∈ documents, platform.Marks document
  queued : ∀ write ∈ client.outbox, write.collection = .cities →
    ∃ title ∈ platform.pins, write = selection title

/-- The feed splices a plain city. -/
theorem Pinned.plain {platform : Platform} {client : Client} (pinned : client.Pinned platform) :
    PlainText client.postCity := by
  by_cases empty : client.postCity = ""
  · rw [empty]
    decide
  · exact platform.pins_plain (pinned.works _ (.splices rfl empty))

/-- What a selection stores has no title but its pin. -/
theorem selection_marks {platform : Platform} {title key : String} {json : Json}
    (isPin : title ∈ platform.pins) (selects : .setData .cities key json = selection title)
    (stamp : Stamp) : platform.Marks ⟨key, resolve stamp json⟩ := by
  cases selects
  intro other hasOther
  have same : title = other := by simpa using (resolve_string stamp _ "title" other).mp hasOther
  exact same ▸ isPin

/-- A queued write of the cities is a pin, whatever its time. -/
theorem Pinned.marks {platform : Platform} {client : Client} (pinned : client.Pinned platform)
    {key : String} {json : Json} (queued : .setData .cities key json ∈ client.outbox)
    (stamp : Stamp) : platform.Marks ⟨key, resolve stamp json⟩ := by
  obtain ⟨title, isPin, selects⟩ := pinned.queued _ queued rfl
  exact selection_marks isPin selects stamp

/-- A step over a cloud of pins keeps a client to them. -/
theorem Pinned.act {platform : Platform} {cloud : Cloud} {client after : Client} {action : Action}
    (pinned : client.Pinned platform) (stored : ∀ document ∈ cloud .cities, platform.Marks document)
    (acted : client.act platform cloud action = some after) : after.Pinned platform where
  works := by
    intro city works
    obtain same | ⟨callback, documents, asked, ofCities, document, member, hasTitle⟩ :=
      act_worksIn acted works
    · exact pinned.works city same
    · exact pinned.held callback documents asked ofCities document member city hasTitle
  held := by
    intro callback documents member ofCities document inDocuments
    generalize isPending : (⟨callback, some (.snapshot documents)⟩ : Pending) = pending at member
    cases act_pending acted member with
    | kept before =>
      exact pinned.held callback documents (isPending ▸ before) ofCities document inDocuments
    | answered index other =>
      cases isPending
      exact localView_forall stored (fun _ _ => pinned.marks) document (ofCities ▸ mem_read inDocuments)
    | failed | pressed | filtering | lookup | refresh | removal => simp at isPending
  queued := by
    intro write member ofCities
    cases act_outbox acted member with
    | kept before => exact pinned.queued write before ofCities
    | pressed pressed =>
      cases pressed with
      | pin title isPin => exact ⟨title, isPin, rfl⟩
      | user => cases ofCities
    | posted => cases ofCities
    | announced | removed => cases ofCities

end Client

namespace World

variable {ι : Type*}

/-- The cities of the cloud and of every client are pins. -/
structure Pinned (platform : Platform) (world : World ι) : Prop where
  stored : ∀ document ∈ world.cloud .cities, platform.Marks document
  clients : ∀ client, (world.clients client).Pinned platform

/-- At the start nothing is stored or queued. -/
theorem pinned_init (platform : Platform) : (init ι).Pinned platform where
  stored := by simp [init]
  clients := by
    intro client
    refine ⟨fun city works => ?_, by simp [init], by simp [init]⟩
    cases works with
    | filters kept => simp [init] at kept
    | splices kept read => exact absurd kept.symm read
    | titles index screen shown => simp [init] at shown

variable [DecidableEq ι]

/-- One step of any client keeps the cities to pins. -/
theorem Pinned.step {platform : Platform} {world next : World ι} {event : Event ι}
    (pinned : world.Pinned platform) (stepped : world.step platform event = some next) :
    next.Pinned platform where
  stored := by
    intro document member
    obtain older | ⟨time, key, json, rest, _, queued, rfl⟩ := stored_after stepped member
    · exact pinned.stored document older
    · exact (pinned.clients event.1).marks (queued ▸ List.mem_cons_self) (.committed time)
  clients := by
    intro client
    obtain same | ⟨rfl, acted⟩ := client_after stepped client
    · exact same ▸ pinned.clients client
    · exact (pinned.clients _).act pinned.stored acted

/-- Every city of a reachable world is a pin. -/
theorem Reachable.pinned {platform : Platform} {world : World ι}
    (reachable : world.Reachable platform) : world.Pinned platform :=
  reachable.invariant (Pinned platform) (pinned_init platform)
    (fun _ _ _ pinned stepped => pinned.step stepped)

end World

end Amigo
