import Amigo.Firestore

/-!
# Posts and their cloud encoding

A post carries its identifier twice, as `id` and as `postId`, beside the fields
a user sees. Its cloud form lists nine fields, of which `lastUpdate` is the
placeholder for the commit time. Decoding casts eight string fields by force, so
it is undefined on a document that lacks one of them; it does not read
`lastUpdate`. A user's cloud form is the one registration stores.
-/

namespace Amigo

/-- `Post`. Its date is not set by `init(json:)`. -/
structure Post where
  id : String
  title : String := ""
  placeLocation : String := ""
  placeImage : String := ""
  userName : String := ""
  recText : String := ""
  userId : String := ""
  postId : String := ""
  lastUpdate : Option Int := none
deriving DecidableEq

/-- `init(json:)`. None is a failed forced cast. -/
def Post.initJson (json : Fields) : Option Post :=
  (json.string "id").bind fun id =>
  (json.string "placeImage").bind fun placeImage =>
  (json.string "placeLocation").bind fun placeLocation =>
  (json.string "recText").bind fun recText =>
  (json.string "title").bind fun title =>
  (json.string "userName").bind fun userName =>
  (json.string "userId").bind fun userId =>
  (json.string "postId").bind fun postId =>
  some { id, title, placeLocation, placeImage, userName, recText, userId, postId }

/-- `Post.toJson`. -/
def Post.toJson (post : Post) : Json :=
  [("id", .value (.string post.id)),
    ("lastUpdate", .serverTimestamp),
    ("placeImage", .value (.string post.placeImage)),
    ("placeLocation", .value (.string post.placeLocation)),
    ("recText", .value (.string post.recText)),
    ("title", .value (.string post.title)),
    ("userName", .value (.string post.userName)),
    ("userId", .value (.string post.userId)),
    ("postId", .value (.string post.postId))]

/-- `ModelFirebase.addPost`: the document is named by the post's `id`. -/
def Post.write (post : Post) : Write := .setData .posts post.id post.toJson

/-- `User`. -/
structure User where
  id : String
  fullname : String := ""
  ImagAvatr : String := ""
  email : String := ""
deriving DecidableEq

/-- `User.toJson`. -/
def User.toJson (user : User) : Json :=
  [("id", .value (.string user.id)),
    ("fullname", .value (.string user.fullname)),
    ("avatar", .value (.string user.ImagAvatr)),
    ("email", .value (.string user.email)),
    ("lastUpdate", .serverTimestamp)]

/-- `ModelFirebase.add`. -/
def User.write (user : User) : Write := .setData .users user.id user.toJson

/-- The string fields the app casts by force somewhere. -/
def postFields : List String :=
  ["id", "placeImage", "placeLocation", "recText", "title", "userName", "userId", "postId"]

/-- Decoding succeeds exactly on the documents with all eight string fields. -/
theorem initJson_isSome_iff (json : Fields) :
    (Post.initJson json).isSome = true ↔ ∀ name ∈ postFields, (json.string name).isSome = true := by
  simp only [Option.isSome_iff_exists, postFields, List.forall_mem_cons, Post.initJson,
    Option.bind_eq_some_iff]
  constructor
  · rintro ⟨post, id, hasId, image, hasImage, location, hasLocation, text, hasText, title, hasTitle,
      name, hasName, user, hasUser, postId, hasPostId, _⟩
    exact ⟨⟨id, hasId⟩, ⟨image, hasImage⟩, ⟨location, hasLocation⟩, ⟨text, hasText⟩,
      ⟨title, hasTitle⟩, ⟨name, hasName⟩, ⟨user, hasUser⟩, ⟨postId, hasPostId⟩, by simp⟩
  · rintro ⟨⟨id, hasId⟩, ⟨image, hasImage⟩, ⟨location, hasLocation⟩, ⟨text, hasText⟩,
      ⟨title, hasTitle⟩, ⟨name, hasName⟩, ⟨user, hasUser⟩, ⟨postId, hasPostId⟩, _⟩
    exact ⟨_, id, hasId, image, hasImage, location, hasLocation, text, hasText, title, hasTitle,
      name, hasName, user, hasUser, postId, hasPostId, rfl⟩

/-- A decoded post carries the document's own fields. -/
theorem initJson_fields {json : Fields} {post : Post} (decoded : Post.initJson json = some post) :
    json.string "id" = some post.id ∧ json.string "title" = some post.title ∧
      json.string "postId" = some post.postId := by
  simp only [Post.initJson, Option.bind_eq_some_iff] at decoded
  obtain ⟨id, hasId, _, _, _, _, _, _, title, hasTitle, _, _, _, _, postId, hasPostId, same⟩ := decoded
  cases Option.some.inj same
  exact ⟨hasId, hasTitle, hasPostId⟩

/-- Decoding what a post's write stores gives the post back, but never its
`lastUpdate`. -/
theorem initJson_resolve_toJson (stamp : Stamp) (post : Post) :
    Post.initJson (resolve stamp post.toJson) = some { post with lastUpdate := none } := by
  simp [Post.initJson, Post.toJson, resolve, Fields.string, Fields.get, FieldValue.resolve,
    List.lookup_cons]

end Amigo
