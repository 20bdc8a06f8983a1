import Amigo.Local.LevelDbKey

/-!
# The order of keys

Each component of a key is a word of a code that keeps the order, and so is a key: rows
of the index are ordered by user, then by the path of the document, then by the number of
the batch. A beginning of a key is the beginning of those keys only whose components it
begins. The readers read what the writers wrote.
-/

namespace Amigo.Firestore

open OrderedCodes OrderedCode

namespace ComponentLabel

/-- Every label fits the numbers the format writes. -/
theorem code_range (label : ComponentLabel) : -2 ^ 63 ≤ label.code ∧ label.code < 2 ^ 63 := by
  cases label <;> decide

/-- Different labels have different codes. -/
theorem code_injective : Function.Injective code := by
  intro first second
  cases first <;> cases second <;> decide

/-- A label as it is written. -/
def word (label : ComponentLabel) : ByteString := numberWord label.code

/-- The words of labels stand in the order of their codes. -/
theorem before {low high : ComponentLabel} (less : low.code < high.code) :
    Before low.word high.word :=
  ordered_numberWord ⟨low.code, low.code_range⟩ ⟨high.code, high.code_range⟩ less

end ComponentLabel

/-- A component that is a string, behind its label. -/
def stringComponent (label : ComponentLabel) (value : ByteString) : ByteString :=
  label.word ++ stringWord value

/-- Labeled strings keep the order of the strings. -/
theorem ordered_stringComponent (label : ComponentLabel) : Ordered (stringComponent label) :=
  ordered_stringWord.marked label.word

/-- A path as it is written. -/
def pathWord (path : ResourcePath) : ByteString :=
  path.flatMap (stringComponent .PathSegment)

/-- The number of a batch, behind its label. -/
def batchWord (batchId : Int) : ByteString := ComponentLabel.BatchId.word ++ numberWord batchId

/-- What the keys of one table and user begin with. -/
def tableWord (table userId : ByteString) : ByteString :=
  stringComponent .TableName table ++ stringComponent .UserId userId

/-- Where a path ends and a number follows is before every longer path. -/
theorem batch_before (segment : ByteString) :
    Before ComponentLabel.BatchId.word (stringComponent .PathSegment segment) := by
  have less := ComponentLabel.before
    (by decide : ComponentLabel.BatchId.code < ComponentLabel.PathSegment.code)
  simpa [stringComponent] using less.append [] (stringWord segment)

/-- Paths, each closed by the label of a batch number, keep the order of the paths. -/
theorem ordered_path :
    Ordered (fun path : ResourcePath => pathWord path ++ ComponentLabel.BatchId.word) :=
  (ordered_stringComponent .PathSegment).list batch_before

/-- What the keys of a table begin with tells the user. -/
theorem ordered_tableWord (table : ByteString) : Ordered (tableWord table) :=
  (ordered_stringComponent .UserId).marked (stringComponent .TableName table)

/-- A key is of one table. -/
theorem one_table {table other key : ByteString} (begins : stringComponent .TableName table <+: key)
    (alsoBegins : stringComponent .TableName other <+: key) : table = other := by
  obtain ⟨rest, rfl⟩ := begins
  obtain ⟨others, same⟩ := alsoBegins
  exact ((ordered_stringComponent .TableName).append_inj same).1.symm

namespace Writer

/-- A label is always written. -/
theorem writeComponentLabel_eq (label : ComponentLabel) (dest : ByteString) :
    writeComponentLabel label dest = some (dest ++ label.word) := by
  have written := writeSignedNumIncreasing_eq ⟨label.code, label.code_range⟩
  rw [writeComponentLabel, written]
  rfl

/-- So is a labeled string. -/
theorem writeLabeledString_eq (label : ComponentLabel) (value dest : ByteString) :
    writeLabeledString label value dest = some (dest ++ stringComponent label value) := by
  rw [writeLabeledString, writeComponentLabel_eq, Option.bind_eq_bind, Option.bind_some,
    writeString_eq, stringComponent, ← List.append_assoc]
  rfl

/-- So is a batch number. -/
theorem writeBatchId_eq (batchId : SignedNum) (dest : ByteString) :
    writeBatchId batchId dest = some (dest ++ batchWord batchId) := by
  rw [writeBatchId, writeLabeledInt32, writeComponentLabel_eq, Option.bind_eq_bind,
    Option.bind_some, writeSignedNumIncreasing_eq, batchWord, ← List.append_assoc]
  rfl

/-- So is a path. -/
theorem writeResourcePath_eq (path : ResourcePath) (dest : ByteString) :
    writeResourcePath path dest = some (dest ++ pathWord path) := by
  induction path generalizing dest with
  | nil => simp [writeResourcePath, pathWord]
  | cons segment rest inductionHypothesis =>
    have others := inductionHypothesis (dest ++ stringComponent .PathSegment segment)
    rw [writeResourcePath] at others
    rw [writeResourcePath, List.foldlM_cons, writeLabeledString_eq, Option.bind_eq_bind,
      Option.bind_some, others, pathWord, pathWord, List.flatMap_cons, List.append_assoc]

end Writer

namespace LevelDbDocumentMutationKey

open Writer

/-- A row of the index, as it is written. -/
def rowWord (userId : ByteString) (path : ResourcePath) (batchId : Int) : ByteString :=
  tableWord kDocumentMutationsTable userId ++
    (pathWord path ++ (batchWord batchId ++ ComponentLabel.Terminator.word))

/-- The prefix of a user in the index is the word of its table and the user. -/
theorem userPrefix_eq (userId : ByteString) :
    userPrefix userId = some (tableWord kDocumentMutationsTable userId) := by
  simp [userPrefix, writeTableName, writeUserId, writeLabeledString_eq, tableWord]

/-- The prefix of a path in the index is the word of its table, its user and its segments. -/
theorem pathPrefix_eq (userId : ByteString) (path : ResourcePath) :
    pathPrefix userId path = some (tableWord kDocumentMutationsTable userId ++ pathWord path) := by
  simp [pathPrefix, writeTableName, writeUserId, writeLabeledString_eq, writeResourcePath_eq,
    tableWord]

/-- The key of an index row is the row's word. -/
theorem key_eq (userId : ByteString) (documentKey : DocumentKey) (batchId : SignedNum) :
    key userId documentKey batchId = some (rowWord userId documentKey.val batchId) := by
  simp [key, writeTableName, writeUserId, writeLabeledString_eq, writeResourcePath_eq,
    writeBatchId_eq, writeTerminator, writeComponentLabel_eq, tableWord, rowWord]

/-- The word of an index row, in the parts its order is read off. -/
theorem rowWord_eq (userId : ByteString) (path : ResourcePath) (batchId : Int) :
    rowWord userId path batchId = tableWord kDocumentMutationsTable userId ++
      ((pathWord path ++ ComponentLabel.BatchId.word) ++
        (numberWord batchId ++ ComponentLabel.Terminator.word)) := by
  simp [rowWord, batchWord]

/-- Rows are ordered by user, then by path, then by number. -/
theorem rowWord_lt_iff (userId otherUser : ByteString) (path other : ResourcePath)
    (batchId otherId : SignedNum) :
    rowWord userId path batchId < rowWord otherUser other otherId ↔
      userId < otherUser ∨ userId = otherUser ∧
        (path < other ∨ path = other ∧ batchId < otherId) := by
  have numbers := (ordered_numberWord.followed ComponentLabel.Terminator.word).lt_iff batchId
    otherId [] []
  simp only [List.append_nil, lt_irrefl, and_false, or_false] at numbers
  rw [rowWord_eq, rowWord_eq, (ordered_tableWord _).lt_iff, ordered_path.lt_iff, numbers]

/-- A row begins with a user and a path where it is a row of the user beneath the path. -/
theorem prefix_rowWord_iff (userId otherUser : ByteString) (path other : ResourcePath)
    (batchId : Int) :
    tableWord kDocumentMutationsTable userId ++ pathWord path <+:
        rowWord otherUser other batchId ↔ userId = otherUser ∧ path <+: other := by
  have paths : pathWord path <+: pathWord other ++ (ComponentLabel.BatchId.word ++
      (numberWord batchId ++ ComponentLabel.Terminator.word)) ↔ path <+: other :=
    (ordered_stringComponent .PathSegment).list_prefix_iff batch_before
  rw [rowWord_eq, List.append_assoc (pathWord other)]
  constructor
  · rintro ⟨tail, same⟩
    rw [List.append_assoc] at same
    obtain ⟨rfl, inner⟩ := (ordered_tableWord _).append_inj same
    exact ⟨rfl, paths.mp ⟨tail, inner⟩⟩
  · rintro ⟨rfl, inner⟩
    exact List.prefix_append_right_inj _ |>.mpr (paths.mpr inner)

end LevelDbDocumentMutationKey

namespace Reader

/-- The reader succeeds and leaves the rest. -/
def Reads {A : Type} (reader : Reader A) (src : ByteString) (result : A) (rest : ByteString) :
    Prop := reader src = some (some (result, rest))

namespace Reads

variable {A B : Type} {src between rest : ByteString}

/-- Giving a result reads nothing. -/
theorem pure (result : A) : Reads (Pure.pure result) src result src := rfl

/-- Readers that succeed one after another succeed. -/
theorem bind {reader : Reader A} {next : A → Reader B} {first : A} {second : B}
    (reads : Reads reader src first between) (continues : Reads (next first) between second rest) :
    Reads (reader >>= next) src second rest := by
  change OptionT.bind (reader src) (fun read => next read.1 read.2) = _
  rw [reads]
  exact continues

end Reads

/-- The reader refuses what it reads. -/
def Fails {A : Type} (reader : Reader A) (src : ByteString) : Prop := reader src = some none

namespace Fails

variable {A B : Type} {src between : ByteString}

/-- A reader that fails ends the rest. -/
theorem bind {reader : Reader A} (fails : Fails reader src) (next : A → Reader B) :
    Fails (reader >>= next) src := by
  change OptionT.bind (reader src) (fun read => next read.1 read.2) = _
  rw [fails]
  rfl

/-- What fails after a reader that succeeds fails. -/
theorem later {reader : Reader A} {next : A → Reader B} {first : A}
    (reads : Reads reader src first between) (fails : Fails (next first) between) :
    Fails (reader >>= next) src := by
  change OptionT.bind (reader src) (fun read => next read.1 read.2) = _
  rw [reads]
  exact fails

end Fails

/-- A written label is read back where it is expected. -/
theorem reads_label (label : ComponentLabel) (rest : ByteString) :
    Reads (readComponentLabelMatching label) (label.word ++ rest) () rest := by
  have number : Reads readSignedNumIncreasing (label.word ++ rest) label.code rest :=
    (readSignedNumIncreasing_iff _ _ _).mpr ⟨label.code_range, rfl⟩
  refine number.bind ?_
  rw [if_pos rfl]
  exact .pure ()

/-- So is a labeled string. -/
theorem reads_labeledString (label : ComponentLabel) (value rest : ByteString) :
    Reads (readLabeledString label) (stringComponent label value ++ rest) value rest := by
  rw [stringComponent, List.append_assoc]
  exact (reads_label label _).bind ((readString_iff _ _ _).mpr rfl)

/-- So is the name of the expected table. -/
theorem reads_tableName (table rest : ByteString) :
    Reads (readTableNameMatching table) (stringComponent .TableName table ++ rest) () rest := by
  refine (reads_labeledString .TableName table rest).bind ?_
  rw [if_pos rfl]
  exact .pure ()

/-- The name of another table fails. -/
theorem fails_tableName {table expected : ByteString} (other : table ≠ expected)
    (rest : ByteString) :
    Fails (readTableNameMatching expected) (stringComponent .TableName table ++ rest) := by
  refine .later (reads_labeledString .TableName table rest) ?_
  rw [if_neg other]
  rfl

/-- A batch number of 32 bits is read back. -/
theorem reads_batchId {batchId : Int} (range : -2 ^ 31 ≤ batchId ∧ batchId ≤ 2 ^ 31 - 1)
    (rest : ByteString) : Reads readBatchId (batchWord batchId ++ rest) batchId rest := by
  have number : Reads readSignedNumIncreasing (numberWord batchId ++ rest) batchId rest :=
    (readSignedNumIncreasing_iff _ _ _).mpr ⟨by omega, rfl⟩
  rw [batchWord, List.append_assoc]
  refine (reads_label .BatchId _).bind (number.bind ?_)
  rw [if_pos range]
  exact .pure batchId

/-- A path is read up to a label that is not of a segment. -/
theorem readResourcePath_eq (path : ResourcePath) {label : ComponentLabel}
    (other : label ≠ .PathSegment) (rest : ByteString) :
    readResourcePath (pathWord path ++ (label.word ++ rest)) =
      some (some (path, label.word ++ rest)) := by
  have reads (label : ComponentLabel) (rest : ByteString) :
      OrderedCode.readSignedNumIncreasing (label.word ++ rest) = some (some (label.code, rest)) :=
    (readSignedNumIncreasing_iff _ _ _).mpr ⟨label.code_range, rfl⟩
  induction path with
  | nil =>
    have ends := reads label rest
    have different : label.code ≠ ComponentLabel.PathSegment.code :=
      fun same => other (ComponentLabel.code_injective same)
    rw [pathWord, List.flatMap_nil, List.nil_append, readResourcePath]
    generalize label.word ++ rest = src at ends
    split_ifs
    · rfl
    · split
      all_goals
        rename_i found
        rw [ends] at found
        cases found
      exact if_pos different
  | cons segment others inductionHypothesis =>
    have starts := reads .PathSegment
      (stringWord segment ++ (pathWord others ++ (label.word ++ rest)))
    have segments : OrderedCode.readString
        (stringWord segment ++ (pathWord others ++ (label.word ++ rest))) = _ :=
      (readString_iff _ segment _).mpr rfl
    have unfolded : pathWord (segment :: others) ++ (label.word ++ rest) =
        ComponentLabel.PathSegment.word ++
          (stringWord segment ++ (pathWord others ++ (label.word ++ rest))) := by
      simp [pathWord, stringComponent]
    rw [unfolded, readResourcePath]
    generalize ComponentLabel.PathSegment.word ++
      (stringWord segment ++ (pathWord others ++ (label.word ++ rest))) = src at starts
    have notEmpty : src ≠ [] := by
      rintro rfl
      simp [OrderedCode.readSignedNumIncreasing, readRaw] at starts
    rw [if_neg notEmpty]
    split
    all_goals
      rename_i found
      rw [starts] at found
      cases found
    rw [if_neg (not_not.mpr rfl)]
    split
    all_goals
      rename_i found
      rw [segments] at found
      cases found
    rw [inductionHypothesis]
    rfl

/-- The path of a document is read back up to the label that ends it. -/
theorem reads_documentKey {documentKey : DocumentKey} (some : documentKey.val ≠ [])
    {label : ComponentLabel} (other : label ≠ .PathSegment) (rest : ByteString) :
    Reads readDocumentKey (pathWord documentKey.val ++ (label.word ++ rest)) documentKey
      (label.word ++ rest) := by
  have path : Reads readResourcePath (pathWord documentKey.val ++ (label.word ++ rest))
    documentKey.val (label.word ++ rest) := readResourcePath_eq documentKey.val other rest
  refine path.bind ?_
  rw [dif_pos documentKey.2, if_pos some]
  exact .pure documentKey

end Reader

namespace LevelDbMutationKey

open Writer

/-- The key of a batch, as it is written. -/
def rowWord (userId : ByteString) (batchId : Int) : ByteString :=
  tableWord kMutationsTable userId ++ (batchWord batchId ++ ComponentLabel.Terminator.word)

/-- The key of a batch is the word of its row. -/
theorem key_eq (userId : ByteString) (batchId : SignedNum) :
    key userId batchId = some (rowWord userId batchId) := by
  simp [key, writeTableName, writeUserId, writeLabeledString_eq, writeBatchId_eq, writeTerminator,
    writeComponentLabel_eq, tableWord, rowWord]

/-- The prefix of the table of batches is its name's word. -/
theorem tablePrefix_eq : tablePrefix = some (stringComponent .TableName kMutationsTable) := by
  simp [tablePrefix, writeTableName, writeLabeledString_eq]

/-- The prefix of a user is the word of the table and the user. -/
theorem userPrefix_eq (userId : ByteString) :
    userPrefix userId = some (tableWord kMutationsTable userId) := by
  simp [userPrefix, writeTableName, writeUserId, writeLabeledString_eq, tableWord]

/-- Keys of batches are ordered by user and then by number. -/
theorem rowWord_lt_iff (userId otherUser : ByteString) (batchId otherId : SignedNum) :
    rowWord userId batchId < rowWord otherUser otherId ↔
      userId < otherUser ∨ userId = otherUser ∧ batchId < otherId := by
  have numbers := ((ordered_numberWord.marked ComponentLabel.BatchId.word).followed
    ComponentLabel.Terminator.word).lt_iff batchId otherId [] []
  simp only [List.append_nil, lt_irrefl, and_false, or_false] at numbers
  rw [rowWord, rowWord, (ordered_tableWord _).lt_iff, batchWord, batchWord, numbers]

/-- A key begins with a user where it is a key of a batch of the user. -/
theorem prefix_rowWord_iff (userId otherUser : ByteString) (batchId : Int) :
    tableWord kMutationsTable userId <+: rowWord otherUser batchId ↔ userId = otherUser := by
  constructor
  · rintro ⟨tail, same⟩
    exact ((ordered_tableWord _).append_inj same).1
  · rintro rfl
    exact List.prefix_append _ _

/-- Every row of a batch begins with the name of its table. -/
theorem table_begins (userId : ByteString) (batchId : Int) :
    stringComponent .TableName kMutationsTable <+: rowWord userId batchId := by
  rw [rowWord, tableWord, List.append_assoc]
  exact List.prefix_append _ _

/-- The key of a batch is read back. -/
theorem decode_rowWord (userId : ByteString) {batchId : Int}
    (range : -2 ^ 31 ≤ batchId ∧ batchId ≤ 2 ^ 31 - 1) :
    decode (rowWord userId batchId) = some (some (userId, batchId)) := by
  have terminator := Reader.reads_label .Terminator []
  rw [List.append_nil] at terminator
  have whole : Reader.Reads reader (rowWord userId batchId) (userId, batchId) [] := by
    rw [rowWord, tableWord, List.append_assoc]
    refine (Reader.reads_tableName _ _).bind ?_
    refine (Reader.reads_labeledString .UserId userId _).bind ?_
    refine (Reader.reads_batchId range _).bind ?_
    exact terminator.bind (.pure _)
  rw [decode, whole]
  rfl

/-- A key of another table is refused. -/
theorem decode_other {table key : ByteString} (other : table ≠ kMutationsTable)
    (begins : stringComponent .TableName table <+: key) : decode key = some none := by
  obtain ⟨rest, rfl⟩ := begins
  have refused : Reader.Fails reader (stringComponent .TableName table ++ rest) :=
    (Reader.fails_tableName other rest).bind _
  rw [decode, refused]
  rfl

/-- The key of a batch tells its user and its number. -/
theorem rowWord_inj {userId otherUser : ByteString} {batchId otherId : SignedNum}
    (same : rowWord userId batchId = rowWord otherUser otherId) :
    userId = otherUser ∧ batchId = otherId := by
  obtain ⟨users, rest⟩ := (ordered_tableWord _).append_inj same
  rw [batchWord, batchWord, List.append_assoc, List.append_assoc] at rest
  exact ⟨users, (ordered_numberWord.append_inj (List.append_cancel_left rest)).1⟩

/-- So it does of numbers of 32 bits. -/
theorem rowWord_numbers {userId otherUser : ByteString} {batchId otherId : Int}
    (range : -2 ^ 31 ≤ batchId ∧ batchId ≤ 2 ^ 31 - 1)
    (otherRange : -2 ^ 31 ≤ otherId ∧ otherId ≤ 2 ^ 31 - 1)
    (same : rowWord userId batchId = rowWord otherUser otherId) :
    userId = otherUser ∧ batchId = otherId := by
  let number : SignedNum := ⟨batchId, by omega, by omega⟩
  let other : SignedNum := ⟨otherId, by omega, by omega⟩
  obtain ⟨users, numbers⟩ : userId = otherUser ∧ number = other := rowWord_inj same
  exact ⟨users, congrArg Subtype.val numbers⟩

end LevelDbMutationKey

namespace LevelDbDocumentMutationKey

/-- Every row of the index begins with the name of its table. -/
theorem table_begins (userId : ByteString) (path : ResourcePath) (batchId : Int) :
    stringComponent .TableName kDocumentMutationsTable <+: rowWord userId path batchId := by
  rw [rowWord, tableWord, List.append_assoc]
  exact List.prefix_append _ _

/-- A key of a batch is not one of the index. -/
theorem other_table {key : ByteString} (batches : stringComponent .TableName kMutationsTable <+: key)
    (index : stringComponent .TableName kDocumentMutationsTable <+: key) : False :=
  absurd (one_table batches index) (by decide)

/-- A row of the index tells its user, its document and its number. -/
theorem rowWord_inj {userId otherUser : ByteString} {path other : ResourcePath}
    {batchId otherId : SignedNum}
    (same : rowWord userId path batchId = rowWord otherUser other otherId) :
    userId = otherUser ∧ path = other ∧ batchId = otherId := by
  rw [rowWord_eq, rowWord_eq] at same
  obtain ⟨users, rest⟩ := (ordered_tableWord _).append_inj same
  obtain ⟨paths, numbers⟩ := ordered_path.append_inj rest
  exact ⟨users, paths, (ordered_numberWord.append_inj numbers).1⟩

/-- A row of the index is read back. -/
theorem decode_rowWord (userId : ByteString) {documentKey : DocumentKey}
    (nonempty : documentKey.val ≠ []) {batchId : Int}
    (range : -2 ^ 31 ≤ batchId ∧ batchId ≤ 2 ^ 31 - 1) :
    decode (rowWord userId documentKey.val batchId) =
      some (some (userId, documentKey, batchId)) := by
  have terminator := Reader.reads_label .Terminator []
  rw [List.append_nil] at terminator
  have path : Reader.Reads Reader.readDocumentKey
      (pathWord documentKey.val ++ (batchWord batchId ++ ComponentLabel.Terminator.word))
      documentKey (batchWord batchId ++ ComponentLabel.Terminator.word) := by
    rw [batchWord, List.append_assoc]
    exact Reader.reads_documentKey nonempty (by decide) _
  have whole : Reader.Reads reader (rowWord userId documentKey.val batchId)
      (userId, documentKey, batchId) [] := by
    rw [rowWord, tableWord, List.append_assoc]
    refine (Reader.reads_tableName _ _).bind ?_
    refine (Reader.reads_labeledString .UserId userId _).bind ?_
    refine path.bind ((Reader.reads_batchId range _).bind ?_)
    exact terminator.bind (.pure _)
  rw [decode, whole]
  rfl

/-- The rows of the index are ordered by user, path and number, a user and a path begin
exactly the rows of the user beneath the path, and every row is read back. -/
theorem index_rows_ordered (userId other : ByteString) (documentKey another : DocumentKey)
    (nonempty : documentKey.val ≠ []) (batchId otherId : Int)
    (range : -2 ^ 31 ≤ batchId ∧ batchId ≤ 2 ^ 31 - 1)
    (otherRange : -2 ^ 31 ≤ otherId ∧ otherId ≤ 2 ^ 31 - 1) (path : ResourcePath) :
    ∃ row otherRow beginning, key userId documentKey batchId = some row ∧
      key other another otherId = some otherRow ∧ pathPrefix other path = some beginning ∧
      (row < otherRow ↔ userId < other ∨ userId = other ∧
        (documentKey.val < another.val ∨ documentKey.val = another.val ∧ batchId < otherId)) ∧
      (beginning <+: row ↔ other = userId ∧ path <+: documentKey.val) ∧
      decode row = some (some (userId, documentKey, batchId)) :=
  ⟨_, _, _, key_eq userId documentKey ⟨batchId, by omega, by omega⟩,
    key_eq other another ⟨otherId, by omega, by omega⟩, pathPrefix_eq other path,
    rowWord_lt_iff userId other documentKey.val another.val ⟨batchId, by omega, by omega⟩
      ⟨otherId, by omega, by omega⟩,
    prefix_rowWord_iff other userId path documentKey.val batchId,
    decode_rowWord userId nonempty range⟩

/-- Two writes of a user to a document. -/
theorem index_rows_ordered_one :
    ∃ row otherRow beginning, key [117] ⟨[[99], [100]], rfl⟩ 1 = some row ∧
      key [117] ⟨[[99], [100]], rfl⟩ 2 = some otherRow ∧ pathPrefix [117] [[99]] = some beginning ∧
      row < otherRow ∧ beginning <+: row := by
  obtain ⟨row, otherRow, beginning, isRow, isOther, isBeginning, order, begins, -⟩ :=
    index_rows_ordered [117] [117] ⟨[[99], [100]], rfl⟩ ⟨[[99], [100]], rfl⟩ (by decide) 1 2
      (by decide) (by decide) [[99]]
  exact ⟨row, otherRow, beginning, isRow, isOther, isBeginning,
    order.mpr (.inr ⟨rfl, .inr ⟨rfl, by decide⟩⟩), begins.mpr ⟨rfl, [[100]], rfl⟩⟩

end LevelDbDocumentMutationKey

namespace LevelDbMutationQueueKey

open Writer

/-- The key of what is kept of a queue, as it is written. -/
def rowWord (userId : ByteString) : ByteString :=
  tableWord kMutationQueuesTable userId ++ ComponentLabel.Terminator.word

/-- The key is the word of its row. -/
theorem key_eq (userId : ByteString) : key userId = some (rowWord userId) := by
  simp [key, writeTableName, writeUserId, writeLabeledString_eq, writeTerminator,
    writeComponentLabel_eq, tableWord, rowWord]

/-- The key tells its user. -/
theorem rowWord_inj {userId otherUser : ByteString} (same : rowWord userId = rowWord otherUser) :
    userId = otherUser :=
  ((ordered_tableWord _).append_inj same).1

/-- The key begins with the name of its table. -/
theorem table_begins (userId : ByteString) :
    stringComponent .TableName kMutationQueuesTable <+: rowWord userId := by
  rw [rowWord, tableWord, List.append_assoc]
  exact List.prefix_append _ _

end LevelDbMutationQueueKey

namespace LevelDbVersionKey

open Writer

/-- The key of the schema's version, as it is written. -/
def rowWord : ByteString :=
  stringComponent .TableName kVersionGlobalTable ++ ComponentLabel.Terminator.word

/-- The key is the word of its row. -/
theorem key_eq : key = some rowWord := by
  simp [key, writeTableName, writeLabeledString_eq, writeTerminator, writeComponentLabel_eq,
    rowWord]

/-- The key begins with the name of its table. -/
theorem table_begins : stringComponent .TableName kVersionGlobalTable <+: rowWord :=
  List.prefix_append _ _

end LevelDbVersionKey

end Amigo.Firestore
