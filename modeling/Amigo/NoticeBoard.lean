import Mathlib.Data.Set.Basic

/-!
# A notice board for retracted keys

Replicas keep copies of keys that are live at a source. The source retracts a key
without telling them; they learn of it from one notice on a board, which names a
set of keys and which the next notice replaces. A replica that has read the board
carries what it was shown to be named until it drops those copies. What a replica is
shown of the board, and which keys it is offered to copy, may differ from what the
source holds, by changes of its own on their way there.

A board is covering when every copy is of a live key or of a key the notice
names: whoever reads it can drop every dead copy. It is honest when every live
key a replica still carries as named is being retracted: nobody drops a copy of a
key that stays. The moves below are all that can happen to a board, and each law
says what one move needs in the state it finds. Keys are arbitrary and so are the
sets; nothing here is finite or computed.
-/

namespace NoticeBoard

universe u

/-- The keys that are live, named by the notice, carried as named, copied, and being retracted. -/
structure Board (κ : Type u) where
  live : Set κ
  notice : Set κ
  carried : Set κ
  copies : Set κ
  retracting : Set κ

variable {κ : Type u}

/-- Every copy is live or named. -/
def Board.Covering (board : Board κ) : Prop := board.copies ⊆ board.live ∪ board.notice

/-- Every carried key that is live is being retracted. -/
def Board.Honest (board : Board κ) : Prop := board.carried ∩ board.live ⊆ board.retracting

/-- Replicas copy keys they are offered, drop copies, read what they are shown of the
board and ask for retractions. -/
structure Works (shown offered : Set κ) (before after : Board κ) : Prop where
  live : after.live = before.live
  notice : after.notice = before.notice
  carried : after.carried ⊆ before.carried ∪ shown
  copies : after.copies ⊆ before.copies ∪ offered
  retracting : before.retracting ⊆ after.retracting

/-- The source changes its keys, its notice or its retractions, and no replica moves. -/
structure Idle (before after : Board κ) : Prop where
  carried : after.carried = before.carried
  copies : after.copies = before.copies

/-- The source makes keys live. -/
structure Publishes (keys : Set κ) (before after : Board κ) : Prop extends Idle before after where
  live : after.live = before.live ∪ keys
  notice : after.notice = before.notice
  retracting : before.retracting ⊆ after.retracting

/-- The source retracts keys. -/
structure Retracts (keys : Set κ) (before after : Board κ) : Prop extends Idle before after where
  live : after.live = before.live \ keys
  notice : after.notice = before.notice
  retracting : before.retracting \ keys ⊆ after.retracting

/-- A new notice is put on the board. -/
structure Announces (names : Set κ) (before after : Board κ) : Prop extends Idle before after where
  live : after.live = before.live
  named : names ⊆ after.notice
  notice : after.notice ⊆ before.notice ∪ names
  retracting : before.retracting ⊆ after.retracting

/-- The source gives up a retraction. -/
structure Abandons (keys : Set κ) (before after : Board κ) : Prop extends Idle before after where
  live : after.live = before.live
  notice : after.notice = before.notice
  retracting : before.retracting \ keys ⊆ after.retracting

variable {before after : Board κ} {shown offered keys : Set κ}

/-- Copying keeps a covering board covering when the offered keys are live or named. -/
theorem Works.covering (works : Works shown offered before after) (covering : before.Covering)
    (stored : after.copies ∩ offered ⊆ before.copies ∪ (before.live ∪ before.notice)) :
    after.Covering := by
  intro key copied
  rw [works.live, works.notice]
  obtain older | isOffered := works.copies copied
  · exact covering older
  · obtain older | covered := stored ⟨copied, isOffered⟩
    · exact covering older
    · exact covered

/-- Publishing keeps the cover. -/
theorem Publishes.covering (publishes : Publishes keys before after) (covering : before.Covering) :
    after.Covering := by
  intro key copied
  rw [publishes.live, publishes.notice]
  rw [publishes.copies] at copied
  obtain live | named := covering copied
  · exact Or.inl (Or.inl live)
  · exact Or.inr named

/-- Retracting keeps a covering board covering when the copies of the retracted
keys are named. -/
theorem Retracts.covering (retracts : Retracts keys before after) (covering : before.Covering)
    (announced : before.copies ∩ keys ⊆ before.notice) : after.Covering := by
  intro key copied
  rw [retracts.live, retracts.notice]
  rw [retracts.copies] at copied
  by_cases retracted : key ∈ keys
  · exact Or.inr (announced ⟨copied, retracted⟩)
  · obtain live | named := covering copied
    · exact Or.inl ⟨live, retracted⟩
    · exact Or.inr named

/-- A new notice keeps the board covering when it names every dead copy. -/
theorem Announces.covering (announces : Announces keys before after)
    (remembers : before.copies \ before.live ⊆ keys) : after.Covering := by
  intro key copied
  rw [announces.live]
  rw [announces.copies] at copied
  by_cases live : key ∈ before.live
  · exact Or.inl live
  · exact Or.inr (announces.named (remembers ⟨copied, live⟩))

/-- So does giving up. -/
theorem Abandons.covering (abandons : Abandons keys before after) (covering : before.Covering) :
    after.Covering := by
  intro key copied
  rw [abandons.live, abandons.notice]
  rw [abandons.copies] at copied
  exact covering copied

/-- Reading the board keeps it honest when the live keys read are being retracted. -/
theorem Works.honest (works : Works shown offered before after) (honest : before.Honest)
    (read : after.carried ∩ before.live ⊆ before.carried ∪ before.retracting) : after.Honest := by
  rintro key ⟨carried, live⟩
  rw [works.live] at live
  obtain older | retracting := read ⟨carried, live⟩
  · exact works.retracting (honest ⟨older, live⟩)
  · exact works.retracting retracting

/-- Making keys live keeps the board honest when the carried ones are live
already or being retracted. -/
theorem Publishes.honest (publishes : Publishes keys before after) (honest : before.Honest)
    (fresh : before.carried ∩ keys ⊆ before.live ∪ before.retracting) : after.Honest := by
  rintro key ⟨carried, live⟩
  rw [publishes.carried] at carried
  rw [publishes.live] at live
  have stood : key ∈ before.live ∪ before.retracting :=
    live.elim (fun older => Or.inl older) (fun added => fresh ⟨carried, added⟩)
  obtain older | retracting := stood
  · exact publishes.retracting (honest ⟨carried, older⟩)
  · exact publishes.retracting retracting

/-- Retracting keeps the board honest. -/
theorem Retracts.honest (retracts : Retracts keys before after) (honest : before.Honest) :
    after.Honest := by
  rintro key ⟨carried, live⟩
  rw [retracts.carried] at carried
  rw [retracts.live] at live
  exact retracts.retracting ⟨honest ⟨carried, live.1⟩, live.2⟩

/-- So does announcing. -/
theorem Announces.honest (announces : Announces keys before after) (honest : before.Honest) :
    after.Honest := by
  rintro key ⟨carried, live⟩
  rw [announces.carried] at carried
  rw [announces.live] at live
  exact announces.retracting (honest ⟨carried, live⟩)

/-- Giving up a retraction keeps the board honest when no carried live key
depended on it. -/
theorem Abandons.honest (abandons : Abandons keys before after) (honest : before.Honest)
    (spared : before.carried ∩ before.live ∩ keys ⊆ after.retracting) : after.Honest := by
  rintro key ⟨carried, live⟩
  rw [abandons.carried] at carried
  rw [abandons.live] at live
  by_cases given : key ∈ keys
  · exact spared ⟨⟨carried, live⟩, given⟩
  · exact abandons.retracting ⟨honest ⟨carried, live⟩, given⟩

end NoticeBoard
