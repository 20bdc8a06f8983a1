import Amigo.Client

/-!
# What each closure of a client leaves

Every closure is described by its exact results. The four loops that only bring fields
up to date make small effects one after the other. A merge asks for two reads, dates and
stores, and then traps on the read of the table or hands a list over. The page of a post
and the end of an upload trap at their unwraps, or do the one thing they are for. A
delivered read asks the next one, merges, deletes, announces or edits, and otherwise
leaves the client, traps or brings fields up to date. Each action of a running app has
one result, in these terms. Laws of steps start from these results, and do not unfold
a closure again.
-/

namespace Amigo

namespace Client

/-- One effect of the loops that only bring fields up to date: rows dropped, the
feed's city or a screen's fields set, or a failed cast in a document that is no post. -/
inductive Touch : Client → Client → Prop
  | drops (client : Client) (rows : List Row) (kept : rows.Sublist client.postAmigo) :
      Touch client { client with postAmigo := rows }
  | refreshes (client : Client) (city : String) : Touch client { client with postCity := city }
  | fills (client : Client) (adds : List AddScreen) : Touch client { client with adds := adds }
  | stops (client : Client) (trap : Trap)
      (field : trap = .idPostField ∨ trap = .cityField ∨ trap = .fullnameField) :
      Touch client (client.crash trap)

/-- The loops do nothing but such effects, one after the other. -/
theorem touches_deleterAnswered (platform : Platform) (receiver : Post) (documents : List Document)
    (client : Client) :
    Relation.ReflTransGen Touch client (deleterAnswered platform receiver documents client) := by
  induction documents generalizing client with
  | nil => exact .refl
  | cons document rest inductionHypothesis =>
    rw [deleterAnswered]
    split
    · exact .single (.stops client _ (Or.inl rfl))
    · exact .head (.drops client _ (deleteFromDb_sublist ..)) (inductionHypothesis _)

/-- The refresh of the city is such a loop. -/
theorem touches_cityRefreshed (documents : List Document) (client : Client) :
    Relation.ReflTransGen Touch client (cityRefreshed documents client) := by
  induction documents generalizing client with
  | nil => exact .refl
  | cons document rest inductionHypothesis =>
    rw [cityRefreshed]
    split
    · exact .single (.stops client _ (Or.inr (Or.inl rfl)))
    · exact .head (.refreshes client _) (inductionHypothesis _)

/-- So is the cities read of an add screen. -/
theorem touches_addCityAnswered (screen : Nat) (documents : List Document) (client : Client) :
    Relation.ReflTransGen Touch client (addCityAnswered screen documents client) := by
  induction documents generalizing client with
  | nil => exact .refl
  | cons document rest inductionHypothesis =>
    rw [addCityAnswered]
    split
    · exact .single (.stops client _ (Or.inr (Or.inl rfl)))
    · exact .head (.fills client _) (inductionHypothesis _)

/-- So is its users read. -/
theorem touches_addNameAnswered (screen : Nat) (uid : Option String) (documents : List Document)
    (client : Client) :
    Relation.ReflTransGen Touch client (addNameAnswered screen uid documents client) := by
  induction documents generalizing client with
  | nil => exact .refl
  | cons document rest inductionHypothesis =>
    rw [addNameAnswered]
    split
    · split
      · exact .single (.stops client _ (Or.inr (Or.inr rfl)))
      · exact .head (.fills client _) (inductionHypothesis _)
    · exact inductionHypothesis client

/-- The loop a callback runs over its snapshot, when it is one of the four. -/
theorem touches_answered (platform : Platform) {callback : Callback}
    (loop : (∃ receiver, callback = .deleterLookup receiver) ∨ callback = .refreshCity ∨
      (∃ screen, callback = .addCity screen) ∨ ∃ screen uid, callback = .addName screen uid)
    (answer : Answer) (client : Client) :
    Relation.ReflTransGen Touch client (client.answered platform callback answer) := by
  cases answer with
  | failed =>
    obtain ⟨receiver, rfl⟩ | rfl | ⟨screen, rfl⟩ | ⟨screen, uid, rfl⟩ := loop <;> exact .refl
  | snapshot documents =>
    obtain ⟨receiver, rfl⟩ | rfl | ⟨screen, rfl⟩ | ⟨screen, uid, rfl⟩ := loop
    · exact touches_deleterAnswered platform receiver documents client
    · exact touches_cityRefreshed documents client
    · exact touches_addCityAnswered screen documents client
    · exact touches_addNameAnswered screen uid documents client

/-- The loops that only bring fields up to date set three fields, and may then stop
the app. -/
theorem touches_form {client after : Client} (touches : Relation.ReflTransGen Touch client after) :
    ∃ rows city adds, rows.Sublist client.postAmigo ∧
      (after = { client with postAmigo := rows, postCity := city, adds := adds } ∨
        ∃ trap, after = ({ client with postAmigo := rows, postCity := city, adds := adds } :
          Client).crash trap) := by
  induction touches with
  | refl => exact ⟨client.postAmigo, client.postCity, client.adds, List.Sublist.refl _, Or.inl rfl⟩
  | tail _ touch inductionHypothesis =>
    obtain ⟨rows, city, adds, kept, rfl | ⟨trap, rfl⟩⟩ := inductionHypothesis
    · cases touch with
      | drops fewer sublist => exact ⟨fewer, city, adds, sublist.trans kept, Or.inl rfl⟩
      | refreshes other => exact ⟨rows, other, adds, kept, Or.inl rfl⟩
      | fills others => exact ⟨rows, city, others, kept, Or.inl rfl⟩
      | stops trap => exact ⟨rows, city, adds, kept, Or.inr ⟨trap, rfl⟩⟩
    · cases touch with
      | drops fewer sublist => exact ⟨fewer, city, adds, sublist.trans kept, Or.inr ⟨trap, rfl⟩⟩
      | refreshes other => exact ⟨rows, other, adds, kept, Or.inr ⟨trap, rfl⟩⟩
      | fills others => exact ⟨rows, city, others, kept, Or.inr ⟨trap, rfl⟩⟩
      | stops other => exact ⟨rows, city, adds, kept, Or.inr ⟨other, rfl⟩⟩

/-- The reads a merge asks. -/
def mergeReads : List Post → List Callback
  | [] => [.refreshCity]
  | post :: _ => [.deleterLookup post, .refreshCity]

/-- A merge when it comes to read the table. -/
def merging (data : List Post) (client : Client) : Client :=
  { client with
    postAmigo := mergePosts data client.postAmigo
    dates := setLastUpdate "POSTAMIGO" 0 client.dates
    pending := client.pending ++ (mergeReads data).map (fun callback => ⟨callback, none⟩) }

/-- A merge traps on the read of the table, or hands over the list it read. -/
theorem merge_form (platform : Platform) (data : List Post) (client : Client) :
    (getAllPostsFromDb platform client.postCity (mergePosts data client.postAmigo) = none ∧
      client.merge platform data = (client.merging data).crash .nullColumn) ∨
    ∃ finalData,
      getAllPostsFromDb platform client.postCity (mergePosts data client.postAmigo) = some finalData ∧
      client.merge platform data =
        { client.merging data with delivered := client.delivered ++ [finalData] } := by
  cases hasData : getAllPostsFromDb platform client.postCity (mergePosts data client.postAmigo) with
  | none =>
    refine Or.inl ⟨rfl, ?_⟩
    cases data <;> simp only [merge, ask, merging, hasData] <;> rfl
  | some finalData =>
    refine Or.inr ⟨finalData, rfl, ?_⟩
    cases data <;> simp only [merge, ask, merging, mergeReads, hasData, List.append_assoc,
      List.map_cons, List.map_nil, List.cons_append, List.nil_append]

/-- What a page of a post that appears keeps: its id, and whether its user may edit it. -/
def reloaded (info : InfoScreen) (client : Client) : Client :=
  { client with
    postID := info.post.postId
    info := some { info with
      editable := info.editable || decide (some info.post.userId = client.currentUser) } }

/-- The results of a page of a post that appears. -/
inductive Reloads (client : Client) : Client → Prop
  | closed (isClosed : client.info = none) : Reloads client (client.crash .noPost)
  | signedOut (info : InfoScreen) (isOpen : client.info = some info)
      (absent : client.currentUser = none) :
      Reloads client ((client.reloaded info).crash .currentUser)
  | shown (info : InfoScreen) (isOpen : client.info = some info) (uid : String)
      (signedIn : client.currentUser = some uid) : Reloads client (client.reloaded info)

/-- The inversion of `reloadPost`. -/
theorem reloadPost_reloads (client : Client) : Reloads client client.reloadPost := by
  unfold reloadPost
  split
  · rename_i isClosed
    exact .closed isClosed
  · rename_i info isOpen
    dsimp only
    split
    · rename_i absent
      exact .signedOut info isOpen absent
    · rename_i uid signedIn
      exact .shown info isOpen uid signedIn

/-- The upload closure gets as far as `Model.savePost`: it has a url, and the
unwraps of its screen's city and name succeed. -/
def savesPost (client : Client) (url : String) : Upload → Bool
  | .newPost screen _ =>
    url != "" && (client.adds[screen]?).any (fun view => view.city.isSome && view.name.isSome)
  | .edit screen _ => url != "" && (client.edits[screen]?).isSome

/-- The results of the end of an upload: it stores the post of the user signed in, an
edit with the title and the name its page keeps. -/
inductive Finishes (url : String) (client : Client) (upload : Upload) : Client → Prop
  | silent : Finishes url client upload client
  | unfilled (trap : Trap) (field : trap = .city ∨ trap = .name) :
      Finishes url client upload (client.crash trap)
  | signedOut (saves : client.savesPost url upload = true) (absent : client.currentUser = none) :
      Finishes url client upload (client.crash .currentUser)
  | posts (post : Post) (saved : url ≠ "") (named : post.id = upload.document)
      (carried : post.postId = upload.document) (author : client.currentUser = some post.userId)
      (kept : ∀ page docId, upload = .edit page docId → ∃ view, client.edits[page]? = some view ∧
        post.title = view.city ∧ post.userName = view.name) :
      Finishes url client upload (client.enqueue post.write)

/-- The inversion of the end of an upload. -/
theorem uploaded_finishes (url placeText recText : String) (client : Client) (upload : Upload) :
    Finishes url client upload (client.uploaded url placeText recText upload) := by
  cases upload with
  | newPost screen idPost =>
    simp only [uploaded, newPostUploaded]
    split
    · exact .silent
    · rename_i saved
      split
      · exact .silent
      · rename_i view shown
        split
        · exact .unfilled .city (Or.inl rfl)
        · rename_i city hasCity
          split
          · exact .unfilled .name (Or.inr rfl)
          · rename_i name hasName
            split
            · rename_i absent
              exact .signedOut (by simp [savesPost, saved, shown, hasCity, hasName]) absent
            · rename_i signedIn
              exact .posts _ saved rfl rfl signedIn (by simp)
  | edit screen docId =>
    simp only [uploaded, editUploaded]
    split
    · exact .silent
    · rename_i saved
      split
      · exact .silent
      · rename_i view shown
        split
        · rename_i absent
          exact .signedOut (by simp [savesPost, saved, shown]) absent
        · rename_i signedIn
          refine .posts _ saved rfl rfl signedIn ?_
          intro page document isEdit
          cases isEdit
          exact ⟨view, shown, rfl, rfl⟩

/-- The announcement and the lookup a confirmed delete starts, when it starts
anything: the announced id is the `postId` of a document it read. -/
theorem deleteConfirmed_form (documents : List Document) (client : Client) :
    deleteConfirmed documents client = client ∨
      deleteConfirmed documents client = client.crash .postField ∨
      ∃ document ∈ documents, ∃ postIds, document.data.string "postId" = some postIds ∧
        client.selected.map Post.postId = some postIds ∧
        deleteConfirmed documents client =
          (client.enqueue
            (.setData .deleter "Post" [("idPost", .value (.string postIds))])).deleteAPosts postIds := by
  induction documents with
  | nil => exact Or.inl rfl
  | cons document rest inductionHypothesis =>
    rw [deleteConfirmed]
    split
    · exact Or.inr (Or.inl rfl)
    · rename_i postid hasId
      split
      · rename_i chosen
        exact Or.inr (Or.inr ⟨document, List.mem_cons_self, postid, hasId, chosen, rfl⟩)
      · obtain same | stopped | ⟨other, inRest, postIds, facts⟩ := inductionHypothesis
        · exact Or.inl same
        · exact Or.inr (Or.inl stopped)
        · exact Or.inr (Or.inr ⟨other, List.mem_cons_of_mem _ inRest, postIds, facts⟩)

/-- The prefill of an edit screen changes nothing or fails a cast. -/
theorem editPrefilled_form (screen : Nat) (documents : List Document) (client : Client) :
    editPrefilled screen documents client = client ∨
      editPrefilled screen documents client = client.crash .postField := by
  unfold editPrefilled
  split
  · exact Or.inl rfl
  · split
    · exact Or.inl rfl
    · split
      · exact Or.inl rfl
      · exact Or.inr rfl

/-- The upload an edit starts, when it starts one: for the document it read under
the screen's id. -/
theorem editRead_form (screen : Nat) (documents : List Document) (client : Client) :
    editRead screen documents client = client ∨
      editRead screen documents client = client.crash .postField ∨
      ∃ view, client.edits[screen]? = some view ∧
      ∃ document ∈ documents, document.documentID = view.postEditID ∧
      ∃ title userName, document.data.string "title" = some title ∧
        document.data.string "userName" = some userName ∧
        editRead screen documents client = { client with
          edits := client.edits.modify screen
            (fun view => { view with city := title, name := userName })
          uploads := client.uploads ++ [.edit screen document.documentID] } := by
  unfold editRead
  split
  · exact Or.inl rfl
  · rename_i view hasView
    split
    · exact Or.inl rfl
    · rename_i document found
      have member := List.mem_of_find?_eq_some found
      have named : document.documentID = view.postEditID := by simpa using List.find?_some found
      split
      · rename_i title userName hasTitle hasName
        exact Or.inr (Or.inr ⟨view, hasView, document, member, named, title, userName, hasTitle,
          hasName, rfl⟩)
      · exact Or.inr (Or.inl rfl)

/-- Every post of the filtered list was decoded from a document of the snapshot
whose title is the city. -/
theorem matchingPosts_origin {platform : Platform} {city : Option String} {snapshot : List Document}
    {data : List Post} (matched : matchingPosts platform city snapshot = some data) {post : Post}
    (member : post ∈ data) :
    ∃ document ∈ snapshot, Post.initJson document.data = some post ∧
      platform.isCity city post.title = true := by
  induction snapshot generalizing data with
  | nil =>
    cases Option.some.inj matched
    exact absurd member List.not_mem_nil
  | cons document rest inductionHypothesis =>
    rw [matchingPosts, Option.bind_eq_some_iff] at matched
    obtain ⟨title, hasTitle, continued⟩ := matched
    split at continued
    · rename_i inCity
      obtain ⟨decoded, isDecoded, others⟩ := Option.bind_eq_some_iff.mp continued
      obtain ⟨later, isLater, rfl⟩ := Option.map_eq_some_iff.mp others
      have carried := hasTitle.symm.trans (initJson_fields isDecoded).2.1
      have sameTitle : platform.isCity city decoded.title = true := Option.some.inj carried ▸ inCity
      simp only [List.mem_cons] at member
      obtain rfl | rfl | inLater := member
      · exact ⟨document, List.mem_cons_self, isDecoded, sameTitle⟩
      · exact ⟨document, List.mem_cons_self, isDecoded, sameTitle⟩
      · obtain ⟨source, inRest, facts⟩ := inductionHypothesis isLater inLater
        exact ⟨source, List.mem_cons_of_mem _ inRest, facts⟩
    · obtain ⟨source, inRest, facts⟩ := inductionHypothesis continued member
      exact ⟨source, List.mem_cons_of_mem _ inRest, facts⟩

/-- The results of delivering a read. -/
inductive Answers (platform : Platform) (client : Client) (callback : Callback) (answer : Answer) :
    Client → Prop
  | silent (reads : callback = .confirmedDelete ∨ (∃ screen, callback = .editPrefill screen) ∨
      ∃ screen, callback = .editRead screen) : Answers platform client callback answer client
  | stops (trap : Trap) (field : trap = .missingData ∨ trap = .postField) :
      Answers platform client callback answer (client.crash trap)
  | refreshes (loop : (∃ receiver, callback = .deleterLookup receiver) ∨ callback = .refreshCity ∨
      (∃ screen, callback = .addCity screen) ∨ ∃ screen uid, callback = .addName screen uid) :
      Answers platform client callback answer (client.answered platform callback answer)
  | fetched (since : Int) (next : AfterFetch) (documents : List Document)
      (asked : callback = .fetchPosts since next) (answered : answer = .snapshot documents) :
      Answers platform client callback answer (client.ask (.fetchCities documents next))
  | uncast (snapshot : List Document) (next : AfterFetch)
      (asked : callback = .fetchCities snapshot next) :
      Answers platform client callback answer
        ({ client with firebaseCity := client.cityRead answer }.crash .postField)
  | merged (snapshot : List Document) (data : List Post)
      (asked : callback = .fetchCities snapshot .merge)
      (matched : matchingPosts platform (client.cityRead answer) snapshot = some data) :
      Answers platform client callback answer
        ({ client with firebaseCity := client.cityRead answer }.merge platform data)
  | missed (snapshot : List Document) (postIds : String)
      (asked : callback = .fetchCities snapshot (.delete postIds)) :
      Answers platform client callback answer { client with firebaseCity := client.cityRead answer }
  | removed (snapshot : List Document) (postIds : String) (data : List Post)
      (asked : callback = .fetchCities snapshot (.delete postIds))
      (matched : matchingPosts platform (client.cityRead answer) snapshot = some data)
      (post : Post) (found : post ∈ data) (named : post.postId = postIds) :
      Answers platform client callback answer
        ({ client with
          firebaseCity := client.cityRead answer
          postAmigo := deleteFromDb platform post postIds client.postAmigo }.enqueue (.delete postIds))
  | announced (documents : List Document) (document : Document) (postIds : String)
      (asked : callback = .confirmedDelete) (answered : answer = .snapshot documents)
      (member : document ∈ documents) (named : document.data.string "postId" = some postIds)
      (chosen : client.selected.map Post.postId = some postIds) :
      Answers platform client callback answer
        ((client.enqueue
          (.setData .deleter "Post" [("idPost", .value (.string postIds))])).deleteAPosts postIds)
  | edited (screen : Nat) (view : EditScreen) (documents : List Document) (document : Document)
      (title userName : String) (asked : callback = .editRead screen)
      (answered : answer = .snapshot documents) (member : document ∈ documents)
      (shown : client.edits[screen]? = some view) (named : document.documentID = view.postEditID)
      (hasTitle : document.data.string "title" = some title)
      (hasName : document.data.string "userName" = some userName) :
      Answers platform client callback answer
        { client with
          edits := client.edits.modify screen
            (fun view => { view with city := title, name := userName })
          uploads := client.uploads ++ [.edit screen document.documentID] }

/-- The inversion of a delivered closure. -/
theorem answered_answers (platform : Platform) (client : Client) (callback : Callback) (answer : Answer) :
    Answers platform client callback answer (client.answered platform callback answer) := by
  cases callback with
  | fetchPosts since next =>
    cases answer with
    | failed => exact .stops .missingData (Or.inl rfl)
    | snapshot documents => exact .fetched since next documents rfl rfl
  | fetchCities snapshot next =>
    simp only [answered, citiesAnswered]
    cases matched : matchingPosts platform (client.cityRead answer) snapshot with
    | none => exact .uncast snapshot next rfl
    | some data =>
      cases next with
      | merge => exact .merged snapshot data rfl matched
      | delete postIds =>
        simp only [afterFetch, removePost]
        split
        · exact .missed snapshot postIds rfl
        · rename_i post found
          have named : post.postId = postIds := by simpa using List.find?_some found
          rw [named]
          exact .removed snapshot postIds data rfl matched post (List.mem_of_find?_eq_some found) named
  | deleterLookup | refreshCity | addCity | addName => exact .refreshes (by simp)
  | confirmedDelete =>
    cases answer with
    | failed => exact .silent (by simp)
    | snapshot documents =>
      simp only [answered, onSnapshot]
      obtain same | stopped | ⟨document, member, postIds, named, chosen, result⟩ :=
        deleteConfirmed_form documents client
      · rw [same]
        exact .silent (by simp)
      · rw [stopped]
        exact .stops .postField (Or.inr rfl)
      · rw [result]
        exact .announced documents document postIds rfl rfl member named chosen
  | editPrefill screen =>
    cases answer with
    | failed => exact .silent (by simp)
    | snapshot documents =>
      simp only [answered, onSnapshot]
      obtain same | stopped := editPrefilled_form screen documents client
      · rw [same]
        exact .silent (by simp)
      · rw [stopped]
        exact .stops .postField (Or.inr rfl)
  | editRead screen =>
    cases answer with
    | failed => exact .silent (by simp)
    | snapshot documents =>
      simp only [answered, onSnapshot]
      obtain same | stopped |
        ⟨view, shown, document, member, named, title, userName, hasTitle, hasName, result⟩ :=
        editRead_form screen documents client
      · rw [same]
        exact .silent (by simp)
      · rw [stopped]
        exact .stops .postField (Or.inr rfl)
      · rw [result]
        exact .edited screen view documents document title userName rfl rfl member shown named
          hasTitle hasName

/-- The result of each action, where it is admitted. -/
inductive Acts (platform : Platform) (cloud : Cloud) (client : Client) : Action → Client → Prop
  | getAllPosts : Acts platform cloud client .getAllPosts client.getAllPosts
  | selectPin (title : String) (isPin : title ∈ platform.pins) :
      Acts platform cloud client (.selectPin title)
      (client.enqueue (.setData .cities "city" [("title", .value (.string title))]))
  | confirmDelete (post : Post) (shown : client.shows post = true) :
      Acts platform cloud client (.confirmDelete post)
        ({ client with selected := some post }.ask .confirmedDelete)
  | didSelectRowAt (post : Post) (shown : client.shows post = true) :
      Acts platform cloud client (.didSelectRowAt post)
        { client with selected := some post, info := some ⟨post, false⟩ }.reloadPost
  | infoAppears : Acts platform cloud client .infoAppears client.reloadPost
  | openAdd : Acts platform cloud client .openAdd
      (({ client with adds := client.adds ++ [AddScreen.mk none none] }.ask
        (.addCity client.adds.length)).ask (.addName client.adds.length client.currentUser))
  | postBtn (screen : Nat) (idPost : String) (opened : screen < client.adds.length) :
      Acts platform cloud client (.postBtn screen idPost)
        { client with uploads := client.uploads ++ [.newPost screen idPost] }
  | openEdit (info : InfoScreen) (isOpen : client.info = some info) (editable : info.editable = true) :
      Acts platform cloud client .openEdit
        ({ client with edits := client.edits ++ [EditScreen.mk client.postID "" ""] }.ask
          (.editPrefill client.edits.length))
  | podtEditButtom (screen : Nat) (opened : screen < client.edits.length) :
      Acts platform cloud client (.podtEditButtom screen) (client.ask (.editRead screen))
  | addUser (user : User) : Acts platform cloud client (.addUser user) (client.enqueue user.write)
  | signIn (uid : String) : Acts platform cloud client (.signIn uid) { client with currentUser := some uid }
  | signOut : Acts platform cloud client .signOut { client with currentUser := none }
  | uploaded (index : Nat) (url placeText recText : String) (upload : Upload)
      (running : client.uploads[index]? = some upload) :
      Acts platform cloud client (.uploaded index url placeText recText)
        ({ client with uploads := client.uploads.eraseIdx index }.uploaded url placeText recText upload)
  | uploadFailed (index : Nat) : Acts platform cloud client (.uploadFailed index)
      { client with uploads := client.uploads.eraseIdx index }
  | answer (index : Nat) (callback : Callback)
      (waiting : client.pending[index]? = some ⟨callback, none⟩) :
      Acts platform cloud client (.answer index) { client with
        pending := client.pending.set index ⟨callback, some (.snapshot (callback.read (client.localView cloud)))⟩ }
  | fail (index : Nat) (callback : Callback)
      (waiting : client.pending[index]? = some ⟨callback, none⟩) :
      Acts platform cloud client (.fail index)
        { client with pending := client.pending.set index ⟨callback, some .failed⟩ }
  | deliver (index : Nat) (callback : Callback) (answer : Answer)
      (ready : client.pending[index]? = some ⟨callback, some answer⟩) :
      Acts platform cloud client (.deliver index)
        ({ client with pending := client.pending.eraseIdx index }.answered platform callback answer)
  | commit (time : Timestamp) (write : Write) (rest : List Write) (queued : client.outbox = write :: rest) :
      Acts platform cloud client (.commit time) (client.settle rest)
  | reject (write : Write) (rest : List Write) (queued : client.outbox = write :: rest) :
      Acts platform cloud client .reject (client.settle rest)
  | relaunch : Acts platform cloud client .relaunch client.relaunch

/-- The inversion of a step of a running app. -/
theorem perform_acts {platform : Platform} {cloud : Cloud} {client after : Client} {action : Action}
    (performed : client.perform platform cloud action = some after) :
    Acts platform cloud client action after := by
  cases action with
  | getAllPosts | infoAppears | openAdd | addUser | signIn | signOut =>
    cases Option.some.inj performed
    constructor
  | selectPin | confirmDelete | didSelectRowAt | postBtn | podtEditButtom =>
    obtain ⟨admitted, result⟩ := Option.ite_none_right_eq_some.mp performed
    cases result
    constructor
    exact admitted
  | uploadFailed =>
    cases (Option.ite_none_right_eq_some.mp performed).2
    constructor
  | openEdit =>
    obtain ⟨admitted, result⟩ := Option.ite_none_right_eq_some.mp performed
    cases result
    obtain ⟨info, isOpen, editable⟩ := (Option.any_eq_true _ _).mp admitted
    exact .openEdit info isOpen editable
  | uploaded index url placeText recText =>
    obtain ⟨upload, running, rfl⟩ := Option.map_eq_some_iff.mp performed
    exact .uploaded index url placeText recText upload running
  | answer index =>
    simp only [perform, receive] at performed
    split at performed
    · rename_i callback waiting
      cases Option.some.inj performed
      exact .answer index callback waiting
    · simp at performed
  | fail index =>
    simp only [perform, receive] at performed
    split at performed
    · rename_i callback waiting
      cases Option.some.inj performed
      exact .fail index callback waiting
    · simp at performed
  | deliver index =>
    simp only [perform] at performed
    split at performed
    · rename_i callback answer ready
      cases Option.some.inj performed
      exact .deliver index callback answer ready
    · simp at performed
  | commit | reject | relaunch => simp [perform] at performed

/-- The inversion of a step of a client. -/
theorem act_acts {platform : Platform} {cloud : Cloud} {client after : Client} {action : Action}
    (acted : client.act platform cloud action = some after) : Acts platform cloud client action after := by
  unfold act at acted
  split at acted
  · cases Option.some.inj acted
    exact .relaunch
  · rename_i time
    split at acted
    · simp at acted
    · rename_i write rest queued
      cases Option.some.inj acted
      exact .commit time write rest queued
  · split at acted
    · simp at acted
    · rename_i write rest queued
      cases Option.some.inj acted
      exact .reject write rest queued
  · exact perform_acts (Option.ite_none_right_eq_some.mp acted).2

end Client

end Amigo
