import Amigo.DataFlow

/-!
# What the fetch hands over

The fetch reads the documents at or after a cursor, then the cities, and walks
through the first snapshot with the last title it read, or with the one an
earlier fetch left when there is none. A document of the city is appended by a
statement of its own and once more by the append inside a print, so the list
holds each of them twice, next to each other and in the order of the snapshot.
It holds each of them once only when there is none.
-/

namespace Amigo

/-- Each post is decoded from the document at its place. -/
def Decodes (documents : List Document) (posts : List Post) : Prop :=
  List.Forall₂ (fun document post => Post.initJson document.data = some post) documents posts

/-- The document has a title and it is the city. -/
def ofCity (platform : Platform) (city : Option String) (document : Document) : Bool :=
  (document.data.string "title").any (platform.isCity city)

/-- A document is of a city when it carries its title. -/
theorem ofCity_iff (platform : Platform) (city : Option String) (document : Document) :
    ofCity platform city document = true ↔
      ∃ title, document.data.string "title" = some title ∧ platform.isCity city title = true := by
  simp only [ofCity, Option.any_eq_true]

/-- The post of a document of the city has such a title. -/
theorem ofCity_title {platform : Platform} {city : Option String} {document : Document} {post : Post}
    (isOf : ofCity platform city document = true) (decoded : Post.initJson document.data = some post) :
    platform.isCity city post.title = true := by
  obtain ⟨title, hasTitle, isCity⟩ := (ofCity_iff platform city document).mp isOf
  have carried := hasTitle.symm.trans (initJson_fields decoded).2.1
  exact Option.some.inj carried ▸ isCity

/-- The first document was not updated after the second. -/
def UpdatedInOrder (first second : Document) : Prop :=
  ∀ earlier ∈ first.data.get "lastUpdate", ∀ later ∈ second.data.get "lastUpdate",
    earlier.notAfter later = true

/-- The list is that of the documents at or after the cursor and of the city, each
decoded once, in ascending order of their update. -/
def EachOnce (platform : Platform) (since : Int) (city : Option String)
    (documents : List Document) (data : List Post) : Prop :=
  ∃ listed : List Document,
    listed.Perm (documents.filter fun document =>
      updatedSince since document && ofCity platform city document) ∧
    listed.Pairwise UpdatedInOrder ∧ Decodes listed data

/-- The filtered list holds each document of the city twice, and every document
has a title. -/
theorem matchingPosts_twice {platform : Platform} {city : Option String} {snapshot : List Document}
    {data : List Post} (matched : matchingPosts platform city snapshot = some data) :
    (∀ document ∈ snapshot, ∃ title, document.data.string "title" = some title) ∧
      ∃ posts, Decodes (snapshot.filter (ofCity platform city)) posts ∧
        data = KeyedRows.repeated (posts.map (fun post => (post, 1))) := by
  induction snapshot generalizing data with
  | nil =>
    cases Option.some.inj matched
    exact ⟨by simp, [], List.Forall₂.nil, rfl⟩
  | cons document rest inductionHypothesis =>
    rw [matchingPosts, Option.bind_eq_some_iff] at matched
    obtain ⟨title, hasTitle, continued⟩ := matched
    split at continued
    · rename_i isCity
      obtain ⟨post, decoded, others⟩ := Option.bind_eq_some_iff.mp continued
      obtain ⟨later, isLater, rfl⟩ := Option.map_eq_some_iff.mp others
      obtain ⟨titles, posts, restDecoded, rfl⟩ := inductionHypothesis isLater
      have kept : ofCity platform city document = true :=
        (ofCity_iff platform city document).mpr ⟨title, hasTitle, isCity⟩
      refine ⟨List.forall_mem_cons.mpr ⟨⟨title, hasTitle⟩, titles⟩, post :: posts, ?_, rfl⟩
      rw [List.filter_cons_of_pos kept]
      exact List.Forall₂.cons decoded restDecoded
    · rename_i otherCity
      obtain ⟨titles, posts, restDecoded, rfl⟩ := inductionHypothesis continued
      have dropped : ¬ ofCity platform city document = true := by
        rw [ofCity_iff]
        rintro ⟨other, hasOther, isCity⟩
        exact otherCity (Option.some.inj (hasTitle.symm.trans hasOther) ▸ isCity)
      refine ⟨List.forall_mem_cons.mpr ⟨⟨title, hasTitle⟩, titles⟩, posts, ?_, rfl⟩
      rw [List.filter_cons_of_neg dropped]
      exact restDecoded

/-- A snapshot whose documents all have other titles is filtered to nothing. -/
theorem matchingPosts_nothing {platform : Platform} {city : Option String}
    {snapshot : List Document}
    (others : ∀ document ∈ snapshot, ∃ title, document.data.string "title" = some title ∧
      ¬ platform.isCity city title = true) : matchingPosts platform city snapshot = some [] := by
  induction snapshot with
  | nil => rfl
  | cons document rest inductionHypothesis =>
    obtain ⟨⟨title, hasTitle, otherCity⟩, restOthers⟩ := List.forall_mem_cons.mp others
    simp only [matchingPosts, hasTitle, Option.bind_some, if_neg otherCity,
      inductionHypothesis restOthers]

namespace Client

/-- What `ModelFirebase.getAllPosts` passes to its callback when both its reads
succeed, by what the two collections hold. None is a failed forced cast. -/
def fetched (platform : Platform) (since : Int) (posts cities : List Document) (client : Client) :
    Option (List Post) :=
  matchingPosts platform (client.cityRead (.snapshot (getDocuments cities))) (getDocumentsSince since posts)

/-- The second closure of the fetch passes that list on. -/
theorem citiesAnswered_fetched (platform : Platform) (since : Int) (posts cities : List Document)
    (next : AfterFetch) (client : Client) :
    client.citiesAnswered platform (getDocumentsSince since posts) next
        (.snapshot (getDocuments cities)) =
      let filtering :=
        { client with firebaseCity := client.cityRead (.snapshot (getDocuments cities)) }
      match client.fetched platform since posts cities with
      | none => filtering.crash .postField
      | some data => filtering.afterFetch platform next data := rfl

/-- The fetch passes on each document of the city once, in ascending order, exactly
when no document at or after the cursor has the title of the city, and all have
some title. -/
theorem fetched_each_once (platform : Platform) (client : Client) (since : Int)
    (posts cities : List Document) :
    (∃ data, client.fetched platform since posts cities = some data ∧
      EachOnce platform since (client.cityRead (.snapshot (getDocuments cities))) posts data) ↔
    ∀ document ∈ posts, updatedSince since document = true →
      ∃ title, document.data.string "title" = some title ∧
        ¬ platform.isCity (client.cityRead (.snapshot (getDocuments cities))) title = true := by
  generalize isCity : client.cityRead (.snapshot (getDocuments cities)) = city
  simp only [fetched, isCity]
  constructor
  · rintro ⟨data, matched, listed, isListed, _, decoded⟩
    obtain ⟨titles, twice, twiceDecoded, rfl⟩ := matchingPosts_twice matched
    -- as many documents are of the city as the list is long, and half as many
    have once : (KeyedRows.repeated (twice.map (fun post => (post, 1)))).length =
        ((getDocumentsSince since posts).filter (ofCity platform city)).length := by
      rw [← decoded.length_eq, isListed.length_eq, getDocumentsSince, ← List.filter_filter]
      have sorted := List.perm_insertionSort (fun first second => updatedNoLater first second = true)
        (posts.filter (updatedSince since))
      simpa [List.filter_filter, Bool.and_comm] using ((sorted.filter (ofCity platform city)).length_eq).symm
    have doubled : (KeyedRows.repeated (twice.map (fun post => (post, 1)))).length =
        2 * twice.length := by
      simp [KeyedRows.repeated, List.length_flatMap, Function.comp_def, List.map_const',
        Nat.mul_comm]
    have none : (getDocumentsSince since posts).filter (ofCity platform city) = [] := by
      have same : twice.length = ((getDocumentsSince since posts).filter (ofCity platform city)).length :=
        twiceDecoded.length_eq.symm
      apply List.eq_nil_of_length_eq_zero
      omega
    intro document member fresh
    have inSnapshot : document ∈ getDocumentsSince since posts :=
      mem_getDocumentsSince.mpr ⟨member, fresh⟩
    obtain ⟨title, hasTitle⟩ := titles document inSnapshot
    refine ⟨title, hasTitle, ?_⟩
    intro same
    exact List.filter_eq_nil_iff.mp none document inSnapshot
      ((ofCity_iff platform city document).mpr ⟨title, hasTitle, same⟩)
  · intro others
    have inSnapshot : ∀ document ∈ getDocumentsSince since posts,
        ∃ title, document.data.string "title" = some title ∧
          ¬ platform.isCity city title = true := by
      intro document member
      obtain ⟨stored, fresh⟩ := mem_getDocumentsSince.mp member
      exact others document stored fresh
    have nothing : posts.filter
        (fun document => updatedSince since document && ofCity platform city document) = [] := by
      rw [List.filter_eq_nil_iff]
      intro document member selected
      obtain ⟨fresh, isOf⟩ := Bool.and_eq_true_iff.mp selected
      obtain ⟨title, hasTitle, otherCity⟩ := others document member fresh
      obtain ⟨other, hasOther, isCity⟩ := (ofCity_iff platform city document).mp isOf
      exact otherCity (Option.some.inj (hasTitle.symm.trans hasOther) ▸ isCity)
    exact ⟨[], matchingPosts_nothing inSnapshot, [], by rw [nothing], List.Pairwise.nil,
      List.Forall₂.nil⟩

/-- A collection with one post of a city. -/
def onePost : List Document :=
  (Write.commit ⟨1, 0⟩ (fun _ => [])
    (Post.write { id := "p1", title := "Haifa", postId := "p1" })) .posts

/-- The cities collection with that city selected. -/
def haifaSelected : List Document :=
  (Write.commit ⟨1, 0⟩ (fun _ => [])
    (.setData .cities "city" [("title", .value (.string "Haifa"))])) .cities

/-- The fetch does not always pass on each document once. -/
theorem fetched_not_each_once : ¬ ∀ (platform : Platform) (client : Client) (since : Int)
    (posts cities : List Document), ∃ data, client.fetched platform since posts cities = some data ∧
      EachOnce platform since (client.cityRead (.snapshot (getDocuments cities))) posts data := by
  intro always
  obtain ⟨data, isFetched, listed, isListed, _, decoded⟩ := always Platform.plain {} 0 onePost haifaSelected
  have twice : data.length = 2 := by
    have ran : (({} : Client).fetched Platform.plain 0 onePost haifaSelected).map List.length = some 2 := by
      decide +kernel
    rw [isFetched] at ran
    exact Option.some.inj ran
  have one : (onePost.filter (fun document => updatedSince 0 document &&
      ofCity Platform.plain (({} : Client).cityRead (.snapshot (getDocuments haifaSelected))) document)).length = 1 := by
    decide +kernel
  rw [← isListed.length_eq, decoded.length_eq, twice] at one
  simp at one

end Client

end Amigo
