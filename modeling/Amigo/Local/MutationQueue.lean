import Mathlib.Logic.Function.Basic
import Amigo.Util.ByteString

/-!
# Mutation queues

The vendored Firestore client keeps the writes the cloud has not answered yet in
one queue for each user. A write of the app is a batch of mutations; it is numbered
when it is added and leaves the queue when the cloud has accepted or refused it. The
client reads its queue through an interface with two implementations, one in memory
and one in the local database. The laws here are what the write pipeline rests on:
numbers increase along a queue, a batch is added at the end, the first batch can be
taken out, and the search by number finds the first batch after one.

Numbers are unbounded. The source's have 32 bits, and so have the keys of the database:
its queues can add a batch only while a number is left, and have laws of their own, which
say so. The queues in memory keep the laws here.

An operation returns nothing where an assertion of the source would stop the program.
-/

namespace Amigo.Firestore

/-- The number of no batch. -/
def kBatchIdUnknown : Int := -1

/-- A write to one document. -/
structure Mutation (Key : Type) (Change : Type) where
  key : Key
  change : Change
deriving DecidableEq

/-- The writes of one call of the app. -/
structure MutationBatch (M : Type) where
  batchId : Int
  mutations : List M
deriving DecidableEq

/-- The interface of the queues of one persistence, of which one is in use. -/
class MutationQueue (Store : Type) (User : outParam (Type)) (M : outParam (Type)) where
  /-- Take up the queue of a user, and start it. -/
  start : User → Store → Store
  addMutationBatch : List M → Store → Option (MutationBatch M × Store)
  acknowledgeBatch : MutationBatch M → ByteString → Store → Option Store
  removeMutationBatch : MutationBatch M → Store → Option Store
  lookupMutationBatch : Int → Store → Option (Option (MutationBatch M))
  nextMutationBatchAfterBatchId : Int → Store → Option (Option (MutationBatch M))
  getHighestUnacknowledgedBatchId : Store → Int
  performConsistencyCheck : Store → Option Unit
  getLastStreamToken : Store → ByteString
  setLastStreamToken : ByteString → Store → Store

/-- What a persistence guarantees of its queues: which batches each user has pending,
which user's queue is in use, and how the operations change both. -/
class LawfulMutationQueue (Store : Type) (User : outParam (Type)) (M : outParam (Type))
    [DecidableEq User] [MutationQueue Store User M] where
  Valid : Store → Prop
  user : Store → User
  pending : Store → User → List (MutationBatch M)
  ascending {store : Store} (valid : Valid store) (of : User) :
    (pending store of).Pairwise (fun first second => first.batchId < second.batchId)
  numbered {store : Store} (valid : Valid store) (of : User) :
    ∀ batch ∈ pending store of, 0 < batch.batchId ∧ batch.mutations ≠ []
  start_spec {store : Store} (valid : Valid store) (next : User) :
    Valid (MutationQueue.start next store) ∧ user (MutationQueue.start next store) = next ∧
      pending (MutationQueue.start next store) = pending store
  add_spec {store : Store} (valid : Valid store) {mutations : List M} (some : mutations ≠ []) :
    ∃ batchId after, MutationQueue.addMutationBatch mutations store =
        .some (⟨batchId, mutations⟩, after) ∧
      Valid after ∧ user after = user store ∧ pending after = Function.update (pending store)
        (user store) (pending store (user store) ++ [⟨batchId, mutations⟩])
  acknowledge_spec {store : Store} (valid : Valid store) {batch : MutationBatch M}
    {rest : List (MutationBatch M)} (first : pending store (user store) = batch :: rest)
    (token : ByteString) :
    ∃ after, MutationQueue.acknowledgeBatch batch token store = .some after ∧
      Valid after ∧ user after = user store ∧ pending after = pending store
  remove_spec {store : Store} (valid : Valid store) {batch : MutationBatch M}
    {rest : List (MutationBatch M)} (first : pending store (user store) = batch :: rest) :
    ∃ after, MutationQueue.removeMutationBatch batch store = .some after ∧
      Valid after ∧ user after = user store ∧
      pending after = Function.update (pending store) (user store) rest
  lookup_spec {store : Store} (valid : Valid store) (batchId : Int) :
    MutationQueue.lookupMutationBatch batchId store =
      .some ((pending store (user store)).find? (fun batch => batch.batchId = batchId))
  next_spec {store : Store} (valid : Valid store) (batchId : Int) :
    MutationQueue.nextMutationBatchAfterBatchId batchId store =
      .some ((pending store (user store)).find? (fun batch => batchId < batch.batchId))
  highest_spec {store : Store} (valid : Valid store) :
    MutationQueue.getHighestUnacknowledgedBatchId store =
      ((pending store (user store)).getLast?.map MutationBatch.batchId).getD kBatchIdUnknown
  check_spec {store : Store} (valid : Valid store) :
    MutationQueue.performConsistencyCheck store = .some ()
  token_spec {store : Store} (valid : Valid store) (token : ByteString) :
    Valid (MutationQueue.setLastStreamToken token store) ∧
      user (MutationQueue.setLastStreamToken token store) = user store ∧
      pending (MutationQueue.setLastStreamToken token store) = pending store

end Amigo.Firestore
