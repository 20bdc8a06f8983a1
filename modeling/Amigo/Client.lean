import Amigo.LocalStore

/-!
# One client

A client is the app on one device: its local tables, the fields its model
objects and screens keep, the reads it has asked of the cloud, its running image
uploads and its queue of document writes. Asking a read returns at once; the
callback runs later, in the main queue, with a snapshot or an error. A pending
read therefore has three moments: it is asked, the server answers it from the
committed collection, over which the device lays the writes of its own queue, and
its callback is delivered. Each is a step of its own, so anything may happen between
them. Callbacks delivered once are gone. A read that cannot reach the server fails;
answers from the cache alone are left out.

Writes leave the queue in the order they were issued, and a write is acknowledged
in the step that commits it. A device has one queue, whoever is signed in. The
library keeps one for each user, which is the same where nothing is queued when the
user changes. A failed forced unwrap or
cast stops the app: it loses what it had pending and runs again only after a
relaunch, which keeps the tables, the signed-in user and the queued writes. What
a callback wrote to the tables before it trapped stays.

Every function below is one function or closure of the app, in its own order of
effects. Views, labels, alerts and printing are left out, as are the download of
a shown image and the session flag; text fields are read as inputs of the step
that reads them.
-/

namespace Amigo

/-- What `ModelFirebase.getAllPosts` hands its list to: the merge of
`Model.getAllPosts`, or the search of `Model.deleteAPosts`. -/
inductive AfterFetch where
  | merge
  | delete (postIds : String)
deriving DecidableEq

/-- The closures that wait for a read. -/
inductive Callback where
  | fetchPosts (since : Int) (next : AfterFetch)
  | fetchCities (snapshot : List Document) (next : AfterFetch)
  | deleterLookup (receiver : Post)
  | refreshCity
  | confirmedDelete
  | addCity (screen : Nat)
  | addName (screen : Nat) (uid : Option String)
  | editPrefill (screen : Nat)
  | editRead (screen : Nat)
deriving DecidableEq

/-- The collection a closure waits for. -/
def Callback.collection : Callback → CollectionName
  | .fetchPosts _ _ | .confirmedDelete | .editPrefill _ | .editRead _ => .posts
  | .fetchCities _ _ | .refreshCity | .addCity _ => .cities
  | .deleterLookup _ => .deleter
  | .addName _ _ => .users

/-- The documents a read returns, of the collections as the client shows them. -/
def Callback.read (cloud : Cloud) (callback : Callback) : List Document :=
  match callback with
  | .fetchPosts since _ => getDocumentsSince since (cloud .posts)
  | other => getDocuments (cloud other.collection)

/-- What the server gives a read. -/
inductive Answer where
  | failed
  | snapshot (documents : List Document)
deriving DecidableEq

/-- A read that is asked, and its answer once the server has given one. -/
structure Pending where
  callback : Callback
  answer : Option Answer
deriving DecidableEq

/-- The uploads that end in a post write: of a new post, or of an edit. -/
inductive Upload where
  | newPost (screen : Nat) (idPost : String)
  | edit (screen : Nat) (docId : String)
deriving DecidableEq

/-- The document an upload will write. -/
def Upload.document : Upload → String
  | .newPost _ idPost => idPost
  | .edit _ docId => docId

/-- The fields of one `AddPostViewController`. -/
structure AddScreen where
  name : Option String := none
  city : Option String := none
deriving DecidableEq

/-- The fields of one `EditPostViewController`. -/
structure EditScreen where
  postEditID : String
  city : String := ""
  name : String := ""
deriving DecidableEq

/-- The fields of the open `PostInfoViewController`. -/
structure InfoScreen where
  post : Post
  editable : Bool
deriving DecidableEq

/-- The forced unwraps and casts that stop the app. -/
inductive Trap where
  | missingData
  | postField
  | nullColumn
  | cityField
  | idPostField
  | fullnameField
  | noPost
  | city
  | name
  | currentUser
deriving DecidableEq

/-- The app on one device, with its tables and its queue of writes. -/
structure Client where
  /-- The table POSTAMIGO. -/
  postAmigo : List Row := []
  /-- The table of update dates. -/
  dates : List DateRow := []
  /-- `ModelFirebase.city`. -/
  firebaseCity : Option String := none
  /-- `Post.city`. -/
  postCity : String := ""
  /-- `Model.postID`. -/
  postID : String := ""
  /-- The user `Auth` keeps signed in. -/
  currentUser : Option String := none
  /-- `TablePostTableViewController.selected`. -/
  selected : Option Post := none
  /-- The open post. -/
  info : Option InfoScreen := none
  /-- Every add screen opened, the first one first. -/
  adds : List AddScreen := []
  /-- Every edit screen opened, the first one first. -/
  edits : List EditScreen := []
  /-- The reads whose closures wait, in the order they were asked. -/
  pending : List Pending := []
  /-- The uploads that run. -/
  uploads : List Upload := []
  /-- The queue of writes, the next to be committed first. -/
  outbox : List Write := []
  /-- How many writes have left the queue: the number of its first one. -/
  settled : Nat := 0
  /-- Every list a completion of `Model.getAllPosts` was called with, oldest first. -/
  delivered : List (List Post) := []
  /-- What has stopped the app. -/
  trap : Option Trap := none
deriving DecidableEq

namespace Client

/-- A read is asked: its closure waits. -/
def ask (callback : Callback) (client : Client) : Client :=
  { client with pending := client.pending ++ [⟨callback, none⟩] }

/-- A write is issued: it joins the queue. -/
def enqueue (write : Write) (client : Client) : Client :=
  { client with outbox := client.outbox ++ [write] }

/-- The collections as this client shows them: its queued writes laid over them. -/
def localView (cloud : Cloud) (client : Client) : Cloud := overlay cloud client.settled client.outbox

/-- The first write leaves the queue, committed or rejected. -/
def settle (rest : List Write) (client : Client) : Client :=
  { client with outbox := rest, settled := client.settled + 1 }

/-- What is left of the queue. -/
@[simp] theorem settle_outbox (rest : List Write) (client : Client) :
    (client.settle rest).outbox = rest := rfl

/-- One more write has left it. -/
@[simp] theorem settle_settled (rest : List Write) (client : Client) :
    (client.settle rest).settled = client.settled + 1 := rfl

/-- A write that leaves touches no read. -/
@[simp] theorem settle_pending (rest : List Write) (client : Client) :
    (client.settle rest).pending = client.pending := rfl

/-- Nor does it touch an upload. -/
@[simp] theorem settle_uploads (rest : List Write) (client : Client) :
    (client.settle rest).uploads = client.uploads := rfl

/-- Nor does it touch a row. -/
@[simp] theorem settle_postAmigo (rest : List Write) (client : Client) :
    (client.settle rest).postAmigo = client.postAmigo := rfl

/-- A forced unwrap or cast fails: the app stops and loses what waits in it. -/
def crash (trap : Trap) (client : Client) : Client :=
  { client with trap := some trap, pending := [], uploads := [] }

/-- `Post.getLastUpdateDate`. -/
def lastUpdateDate (client : Client) : Int := getLastUpdateDate "POSTAMIGO" client.dates

/-- `Model.getAllPosts` up to its read. -/
def getAllPosts (client : Client) : Client :=
  client.ask (.fetchPosts client.lastUpdateDate .merge)

/-- `Model.deleteAPosts` up to its read. -/
def deleteAPosts (postIds : String) (client : Client) : Client :=
  client.ask (.fetchPosts client.lastUpdateDate (.delete postIds))

end Client

/-- The titles of the annotations on the map. -/
def Platform.pins (platform : Platform) : List String :=
  ["Rishon-Lezion", "Haifa", "Tel-Aviv", "Eilat", "Ber-Sheva", platform.location]

/-- The loop over the cities documents: the last title wins, as a conditional
cast. -/
def lastTitle (city : Option String) (documents : List Document) : Option String :=
  documents.foldl (fun _ document => document.data.string "title") city

/-- A title equals the city the model keeps, if it keeps one. -/
def Platform.isCity (platform : Platform) (city : Option String) (title : String) : Bool :=
  city.any (platform.same title)

/-- The loop over the posts snapshot. The title is cast by force on every
document; a document of the city is decoded and appended twice, once by its own
statement and once inside a print. -/
def matchingPosts (platform : Platform) (city : Option String) : List Document → Option (List Post)
  | [] => some []
  | document :: rest =>
    (document.data.string "title").bind fun title =>
      if platform.isCity city title then
        (Post.initJson document.data).bind fun post =>
          (matchingPosts platform city rest).map (fun others => post :: post :: others)
      else matchingPosts platform city rest

/-- The merge loop of `Model.getAllPosts`. -/
def mergePosts (data : List Post) (postAmigo : List Row) : List Row :=
  data.foldl (fun rows post => post.addToDb rows) postAmigo

namespace Client

/-- The completion inside `Model.getAllPosts`: merge, start the deleter lookup
with the first post, store the shadowing date zero, start refreshing `Post.city`
and read the table with the value it has now. -/
def merge (platform : Platform) (data : List Post) (client : Client) : Client :=
  let merged := { client with postAmigo := mergePosts data client.postAmigo }
  let looking := match data with
    | [] => merged
    | post :: _ => merged.ask (.deleterLookup post)
  let dated := { looking with dates := setLastUpdate "POSTAMIGO" 0 looking.dates }
  let refreshing := dated.ask .refreshCity
  match getAllPostsFromDb platform refreshing.postCity refreshing.postAmigo with
  | none => refreshing.crash .nullColumn
  | some finalData => { refreshing with delivered := refreshing.delivered ++ [finalData] }

/-- The completion inside `Model.deleteAPosts`: the first fetched post with the
id is removed locally and its cloud delete issued; without one nothing is. -/
def removePost (platform : Platform) (postIds : String) (data : List Post) (client : Client) : Client :=
  match data.find? (fun post => post.postId == postIds) with
  | none => client
  | some post =>
    { client with postAmigo := deleteFromDb platform post post.postId client.postAmigo }.enqueue
      (.delete postIds)

/-- The callback of `ModelFirebase.getAllPosts`. -/
def afterFetch (platform : Platform) (next : AfterFetch) (data : List Post) (client : Client) : Client :=
  match next with
  | .merge => client.merge platform data
  | .delete postIds => client.removePost platform postIds data

/-- The first closure of `ModelFirebase.getAllPosts`. On an error the callback
gets nil, which both of its users unwrap by force. -/
def postsAnswered (next : AfterFetch) (answer : Answer) (client : Client) : Client :=
  match answer with
  | .failed => client.crash .missingData
  | .snapshot documents => client.ask (.fetchCities documents next)

/-- `ModelFirebase.city` after its own read: an error leaves it as it was. -/
def cityRead (client : Client) : Answer → Option String
  | .failed => client.firebaseCity
  | .snapshot documents => lastTitle client.firebaseCity documents

/-- The second closure of `ModelFirebase.getAllPosts`. -/
def citiesAnswered (platform : Platform) (snapshot : List Document) (next : AfterFetch)
    (answer : Answer) (client : Client) : Client :=
  let filtering := { client with firebaseCity := client.cityRead answer }
  match matchingPosts platform filtering.firebaseCity snapshot with
  | none => filtering.crash .postField
  | some data => filtering.afterFetch platform next data

/-- The deleter lookup of `Model.getAllPosts`, in which the first fetched post is the
receiver of each delete. -/
def deleterAnswered (platform : Platform) (receiver : Post) : List Document → Client → Client
  | [], client => client
  | document :: rest, client =>
    match document.data.string "idPost" with
    | none => client.crash .idPostField
    | some postIds =>
      deleterAnswered platform receiver rest
        { client with postAmigo := deleteFromDb platform receiver postIds client.postAmigo }

/-- The refresh of `Post.city`. -/
def cityRefreshed : List Document → Client → Client
  | [], client => client
  | document :: rest, client =>
    match document.data.string "title" with
    | none => client.crash .cityField
    | some title => cityRefreshed rest { client with postCity := title }

/-- The read inside the yes action of `deleteButtom`: the first document whose
`postId` is the selected post's is announced in deleter/Post and handed to
`Model.deleteAPosts`. -/
def deleteConfirmed : List Document → Client → Client
  | [], client => client
  | document :: rest, client =>
    match document.data.string "postId" with
    | none => client.crash .postField
    | some postid =>
      if client.selected.map Post.postId = some postid then
        (client.enqueue
          (.setData .deleter "Post" [("idPost", .value (.string postid))])).deleteAPosts postid
      else deleteConfirmed rest client

/-- The cities read of `AddPostViewController.viewDidLoad`. -/
def addCityAnswered (screen : Nat) : List Document → Client → Client
  | [], client => client
  | document :: rest, client =>
    match document.data.string "title" with
    | none => client.crash .cityField
    | some title =>
      addCityAnswered screen rest
        { client with adds := client.adds.modify screen (fun view => { view with city := some title }) }

/-- The users read of `AddPostViewController.viewDidLoad`. -/
def addNameAnswered (screen : Nat) (uid : Option String) : List Document → Client → Client
  | [], client => client
  | document :: rest, client =>
    if uid = some document.documentID then
      match document.data.string "fullname" with
      | none => client.crash .fullnameField
      | some fullname =>
        addNameAnswered screen uid rest
          { client with
            adds := client.adds.modify screen (fun view => { view with name := some fullname }) }
    else addNameAnswered screen uid rest client

/-- The read of `EditPostViewController.viewDidLoad`, which casts the three
fields it shows. -/
def editPrefilled (screen : Nat) (documents : List Document) (client : Client) : Client :=
  match client.edits[screen]? with
  | none => client
  | some view =>
    match documents.find? (fun document => document.documentID == view.postEditID) with
    | none => client
    | some document =>
      if (document.data.string "placeLocation").isSome && (document.data.string "recText").isSome &&
          (document.data.string "placeImage").isSome then client
      else client.crash .postField

/-- The read of `PodtEditButtom`: keep the title and the author's name of the
edited document and start the upload. -/
def editRead (screen : Nat) (documents : List Document) (client : Client) : Client :=
  match client.edits[screen]? with
  | none => client
  | some view =>
    match documents.find? (fun document => document.documentID == view.postEditID) with
    | none => client
    | some document =>
      match document.data.string "title", document.data.string "userName" with
      | some title, some userName =>
        { client with
          edits := client.edits.modify screen
            (fun view => { view with city := title, name := userName })
          uploads := client.uploads ++ [.edit screen document.documentID] }
      | _, _ => client.crash .postField

/-- Run a closure that only prints an error. -/
def onSnapshot (answer : Answer) (run : List Document → Client → Client) (client : Client) : Client :=
  match answer with
  | .failed => client
  | .snapshot documents => run documents client

/-- Run a delivered callback. -/
def answered (platform : Platform) (callback : Callback) (answer : Answer) (client : Client) : Client :=
  match callback with
  | .fetchPosts _ next => client.postsAnswered next answer
  | .fetchCities snapshot next => client.citiesAnswered platform snapshot next answer
  | .deleterLookup receiver => client.onSnapshot answer (deleterAnswered platform receiver)
  | .refreshCity => client.onSnapshot answer cityRefreshed
  | .confirmedDelete => client.onSnapshot answer deleteConfirmed
  | .addCity screen => client.onSnapshot answer (addCityAnswered screen)
  | .addName screen uid => client.onSnapshot answer (addNameAnswered screen uid)
  | .editPrefill screen => client.onSnapshot answer (editPrefilled screen)
  | .editRead screen => client.onSnapshot answer (editRead screen)

/-- The upload closure of `PostBtn`. -/
def newPostUploaded (screen : Nat) (idPost url placeText recText : String) (client : Client) : Client :=
  if url = "" then client
  else match client.adds[screen]? with
    | none => client
    | some view =>
      match view.city with
      | none => client.crash .city
      | some city =>
        match view.name with
        | none => client.crash .name
        | some name =>
          match client.currentUser with
          | none => client.crash .currentUser
          | some uid =>
            client.enqueue (Post.write
              { id := idPost, title := city, userName := name, placeImage := url, recText := recText,
                placeLocation := placeText, userId := uid, postId := idPost })

/-- The upload closure of `PodtEditButtom`. -/
def editUploaded (screen : Nat) (docId url placeText recText : String) (client : Client) : Client :=
  if url = "" then client
  else match client.edits[screen]? with
    | none => client
    | some view =>
      match client.currentUser with
      | none => client.crash .currentUser
      | some uid =>
        client.enqueue (Post.write
          { id := docId, title := view.city, userName := view.name, placeImage := url,
            recText := recText, placeLocation := placeText, userId := uid, postId := docId })

/-- Run the closure of a finished upload. -/
def uploaded (url placeText recText : String) (client : Client) : Upload → Client
  | .newPost screen idPost => client.newPostUploaded screen idPost url placeText recText
  | .edit screen docId => client.editUploaded screen docId url placeText recText

/-- `PostInfoViewController.reloadPost`. -/
def reloadPost (client : Client) : Client :=
  match client.info with
  | none => client.crash .noPost
  | some info =>
    let shown := { client with
      postID := info.post.postId
      info := some { info with
        editable := info.editable || decide (some info.post.userId = client.currentUser) } }
    match client.currentUser with
    | none => shown.crash .currentUser
    | some _ => shown

/-- A post some delivered list shows. -/
def shows (client : Client) (post : Post) : Bool :=
  client.delivered.any (fun data => data.contains post)

/-- What survives when the app starts again. -/
def relaunch (client : Client) : Client where
  postAmigo := client.postAmigo
  dates := client.dates
  currentUser := client.currentUser
  outbox := client.outbox
  settled := client.settled
  delivered := client.delivered

end Client

/-- The steps of one client. Indices name a pending read or upload. -/
inductive Action where
  | getAllPosts
  | selectPin (title : String)
  | confirmDelete (post : Post)
  | didSelectRowAt (post : Post)
  | infoAppears
  | openAdd
  | postBtn (screen : Nat) (idPost : String)
  | openEdit
  | podtEditButtom (screen : Nat)
  | addUser (user : User)
  | signIn (uid : String)
  | signOut
  | uploaded (index : Nat) (url placeText recText : String)
  | uploadFailed (index : Nat)
  | answer (index : Nat)
  | fail (index : Nat)
  | deliver (index : Nat)
  | commit (time : Timestamp)
  | reject
  | relaunch
deriving DecidableEq

namespace Client

/-- Give the pending read at an index its answer. -/
def receive (index : Nat) (reply : Callback → Answer) (client : Client) : Option Client :=
  match client.pending[index]? with
  | some ⟨callback, none⟩ =>
    some { client with pending := client.pending.set index ⟨callback, some (reply callback)⟩ }
  | _ => none

/-- The steps of a running app. -/
def perform (platform : Platform) (cloud : Cloud) (client : Client) : Action → Option Client
  | .getAllPosts => some client.getAllPosts
  | .selectPin title =>
    if title ∈ platform.pins then
      some (client.enqueue (.setData .cities "city" [("title", .value (.string title))]))
    else none
  | .confirmDelete post =>
    if client.shows post then some ({ client with selected := some post }.ask .confirmedDelete)
    else none
  | .didSelectRowAt post =>
    if client.shows post then
      some { client with selected := some post, info := some ⟨post, false⟩ }.reloadPost
    else none
  | .infoAppears => some client.reloadPost
  | .openAdd =>
    some (({ client with adds := client.adds ++ [AddScreen.mk none none] }.ask
      (.addCity client.adds.length)).ask (.addName client.adds.length client.currentUser))
  | .postBtn screen idPost =>
    if screen < client.adds.length then
      some { client with uploads := client.uploads ++ [.newPost screen idPost] }
    else none
  | .openEdit =>
    if client.info.any InfoScreen.editable then
      some ({ client with edits := client.edits ++ [EditScreen.mk client.postID "" ""] }.ask
        (.editPrefill client.edits.length))
    else none
  | .podtEditButtom screen =>
    if screen < client.edits.length then some (client.ask (.editRead screen)) else none
  | .addUser user => some (client.enqueue user.write)
  | .signIn uid => some { client with currentUser := some uid }
  | .signOut => some { client with currentUser := none }
  | .uploaded index url placeText recText =>
    (client.uploads[index]?).map
      ({ client with uploads := client.uploads.eraseIdx index }.uploaded url placeText recText)
  | .uploadFailed index =>
    if index < client.uploads.length then
      some { client with uploads := client.uploads.eraseIdx index }
    else none
  | .answer index =>
    client.receive index (fun callback => .snapshot (callback.read (client.localView cloud)))
  | .fail index => client.receive index (fun _ => .failed)
  | .deliver index =>
    match client.pending[index]? with
    | some ⟨callback, some answer⟩ =>
      some ({ client with pending := client.pending.eraseIdx index }.answered platform callback answer)
    | _ => none
  | .commit _ | .reject | .relaunch => none

/-- One step of a client. The queue of writes drains whether or not the app is
running; everything else needs an app that has not trapped. The completion of a
committed post has every loaded table reload: each of these is a step `getAllPosts` of
its own. -/
def act (platform : Platform) (cloud : Cloud) (client : Client) (action : Action) : Option Client :=
  match action with
  | .relaunch => some client.relaunch
  | .commit _ | .reject =>
    match client.outbox with
    | [] => none
    | _ :: rest => some (client.settle rest)
  | other => if client.trap = none then client.perform platform cloud other else none

end Client

end Amigo
