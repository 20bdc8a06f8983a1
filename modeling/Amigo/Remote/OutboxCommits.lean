import Amigo.Remote.OutboxLaws

/-!
# What outboxes commit

A write is sent again when its stream is given up, so the server may commit it more
than once; but whatever is told as done has a commit of its own, and in the order of the
writes. The commits of one stream are all of one user, and are a stretch of that user's
writes, those an earlier session has left before those of this one, without gaps.
-/

namespace Outbox

variable {User M Status : Type} [DecidableEq User]

/-- The writes of a user that were told as done. -/
def doneWrites [DecidableEq Status] (verdicts : Verdicts Status) (calls : List (Call User M))
    (user : User) (told : List (Nat × Status)) : List (List M) :=
  told.filterMap fun news => if news.2 = verdicts.done then writeOf calls user news.1 else none

/-- What is committed of a user. -/
def commitsOf (user : User) (committed : List (Commit User M)) : List (List M) :=
  (committed.filter fun commit => commit.user = user).map Commit.mutations

/-- The commits of a stream. -/
def commitsOn (stream : Nat) (committed : List (Commit User M)) : List (Commit User M) :=
  committed.filter fun commit => commit.stream = stream

/-- The writes of a user among the first calls. -/
def writesOf (calls : List (Call User M)) (user : User) (executed : Nat) : List (List M) :=
  (List.range executed).filterMap (writeOf calls user)

/-- The mutations in a queue. -/
def contents (queue : List (Entry M)) : List (List M) := queue.map Entry.mutations

/-- All a user has written, where `left` is what an earlier session has left. -/
def history (left : User → List (List M)) (calls : List (Call User M)) (executed : Nat)
    (user : User) : List (List M) :=
  left user ++ writesOf calls user executed

/-- A queue is the end of what its user has written. -/
def Ends (written : User → List (List M)) (user : User) (queue : List (Entry M)) : Prop :=
  contents queue <:+ written user

section Books

variable {verdicts : Verdicts Status} {calls : List (Call User M)} {user : User}
  {told news : List (Nat × Status)} {executed : Nat}

/-- A further call is not yet in the history. -/
theorem history_append (left : User → List (List M)) (ran : executed ≤ calls.length)
    (call : Call User M) : history left (calls ++ [call]) executed = history left calls executed := by
  funext user
  exact congrArg (left user ++ ·) (List.filterMap_congr fun _ before =>
    writeOf_append ((List.mem_range.mp before).trans_le ran) call)

/-- The history grows by the write of the next call. -/
theorem history_succ (left : User → List (List M)) (user : User) :
    history left calls (executed + 1) user =
      history left calls executed user ++ (writeOf calls user executed).toList := by
  rw [history, writesOf, List.range_succ, List.filterMap_append, ← List.append_assoc, ← writesOf,
    ← history]
  cases found : writeOf calls user executed <;> simp [found]

variable [DecidableEq Status]

/-- A further call changes no write that is done. -/
theorem doneWrites_called (heard : ∀ news ∈ told, news.1 < calls.length) (call : Call User M) :
    doneWrites verdicts (calls ++ [call]) user told = doneWrites verdicts calls user told :=
  List.filterMap_congr fun news member => by rw [writeOf_append (heard news member)]

/-- News that concern no write of a user change nothing for that user. -/
theorem doneWrites_append (silent : ∀ new ∈ news, new.2 = verdicts.done →
    writeOf calls user new.1 = none) :
    doneWrites verdicts calls user (told ++ news) = doneWrites verdicts calls user told := by
  have none : doneWrites verdicts calls user news = [] := by
    rw [doneWrites, List.filterMap_eq_nil_iff]
    intro new member
    by_cases done : new.2 = verdicts.done
    · rw [if_pos done, silent new member done]
    · rw [if_neg done]
  rw [doneWrites, List.filterMap_append, ← doneWrites, ← doneWrites, none, List.append_nil]

end Books

/-- What is told as done, and what the current stream has committed without an answer, is
committed. -/
structure Delivered [DecidableEq Status] (verdicts : Verdicts Status)
    (state : State User M Status) : Prop where
  fits : state.answered ≤ (state.queue state.user).length
  current : (doneWrites verdicts state.calls state.user state.told ++
    (contents (state.queue state.user)).take state.answered).Sublist
      (commitsOf state.user state.committed)
  others : ∀ user, (doneWrites verdicts state.calls user state.told).Sublist
    (commitsOf user state.committed)

/-- What each stream has committed, where `left` is what an earlier session has left. -/
structure Streamed (left : User → List (List M)) (executed : Nat) (state : State User M Status) :
    Prop where
  kept : ∀ user, Ends (history left state.calls executed) user (state.queue user)
  now : ∃ before acknowledged, history left state.calls executed state.user =
      before ++ (acknowledged ++ contents (state.queue state.user)) ∧
    commitsOn state.stream state.committed =
      (acknowledged ++ (contents (state.queue state.user)).take state.answered).map
        (Commit.mk state.stream state.user)
  past : ∀ commit ∈ state.committed, commit.stream ≤ state.stream
  stretch : ∀ stream < state.stream, ∃ user part,
    part <:+: history left state.calls executed user ∧
      commitsOn stream state.committed = part.map (Commit.mk stream user)

namespace Sound

variable {executed : Nat} {state : State User M Status} {verdicts : Verdicts Status}

/-- A waiter of a queue writes nothing. -/
theorem writeOf_waiter (sound : Sound verdicts executed state) {owner user : User}
    {entry : Entry M} (held : entry ∈ state.queue owner) {callback : Nat}
    (waits : callback ∈ entry.waiters) : writeOf state.calls user callback = none :=
  writeOf_wait ((sound.booked owner).waited entry held callback waits).2

/-- The first entry of a queue tells others nothing of their writes, and its own user of its
write alone. -/
theorem doneWrites_news [DecidableEq Status] (sound : Sound verdicts executed state)
    {owner : User} {entry : Entry M} (held : entry ∈ state.queue owner) (status : Status)
    (user : User) :
    doneWrites verdicts state.calls user (state.told ++ entry.news verdicts status) =
      doneWrites verdicts state.calls user state.told ++
        if status = verdicts.done ∧ owner = user ∧ entry.callback.isSome then [entry.mutations]
        else [] := by
  have waiters : doneWrites verdicts state.calls user
      (entry.waiters.map fun callback => (callback, verdicts.done)) = [] := by
    rw [doneWrites, List.filterMap_map, List.filterMap_eq_nil_iff]
    intro callback waits
    simp [sound.writeOf_waiter held waits]
  rw [doneWrites, List.filterMap_append, Entry.news, List.filterMap_append, ← doneWrites,
    ← doneWrites, ← doneWrites, waiters, List.append_nil]
  congr 1
  cases isCallback : entry.callback with
  | none => simp [doneWrites]
  | some callback =>
    obtain ⟨_, some, found⟩ := (sound.booked owner).written entry held callback isCallback
    by_cases done : status = verdicts.done <;> by_cases same : owner = user <;>
      simp [doneWrites, writeOf_write found some, done, same]

end Sound

namespace Delivered

variable [DecidableEq Status] {executed : Nat} {state : State User M Status}
  {verdicts : Verdicts Status}

/-- The books where no entry is settled and none is committed. -/
theorem unsettled (delivered : Delivered verdicts state) {after : State User M Status}
    (told : ∀ user, doneWrites verdicts after.calls user after.told =
      doneWrites verdicts state.calls user state.told)
    (committed : after.committed = state.committed)
    (still : after.answered = 0 ∨ after.user = state.user ∧ after.answered = state.answered ∧
      contents (state.queue state.user) <+: contents (after.queue state.user)) :
    Delivered verdicts after := by
  refine ⟨?_, ?_, fun user => by rw [told, committed]; exact delivered.others user⟩
  · obtain none | ⟨same, answered, longer⟩ := still
    · rw [none]
      exact Nat.zero_le _
    · have long := longer.length_le
      rw [contents, contents, List.length_map, List.length_map] at long
      rw [same, answered]
      exact delivered.fits.trans long
  · rw [told, committed]
    obtain none | ⟨same, answered, longer⟩ := still
    · rw [none, List.take_zero, List.append_nil]
      exact delivered.others after.user
    · have short : state.answered ≤ (contents (state.queue state.user)).length := by
        rw [contents, List.length_map]
        exact delivered.fits
      obtain ⟨more, split⟩ := longer
      rw [same, answered, ← split, List.take_append_of_le_length short]
      exact delivered.current

/-- The server commits the next entry. -/
theorem commits (delivered : Delivered verdicts state) {entry : Entry M}
    (next : (state.queue state.user)[state.answered]? = some entry) :
    Delivered verdicts { state with
      answered := state.answered + 1
      committed := state.committed ++ [⟨state.stream, state.user, entry.mutations⟩] } := by
  refine ⟨(List.getElem?_eq_some_iff.mp next).1, ?_, fun user => ?_⟩
  · have taken : (contents (state.queue state.user)).take (state.answered + 1) =
        (contents (state.queue state.user)).take state.answered ++ [entry.mutations] := by
      rw [List.take_add_one, contents, List.getElem?_map, next]
      rfl
    have more : commitsOf state.user (state.committed ++
        [⟨state.stream, state.user, entry.mutations⟩]) =
        commitsOf state.user state.committed ++ [entry.mutations] := by simp [commitsOf]
    rw [taken, more, ← List.append_assoc]
    exact delivered.current.append (.refl _)
  · rw [commitsOf, List.filter_append, List.map_append]
    exact (delivered.others user).trans (List.sublist_append_left _ _)

/-- The answer to the first entry makes it a write that is done. -/
theorem acknowledges (delivered : Delivered verdicts state)
    (sound : Sound verdicts executed state) {entry : Entry M} {rest : List (Entry M)}
    (first : state.queue state.user = entry :: rest) (answered : 0 < state.answered) :
    Delivered verdicts { state with
      queue := Function.update state.queue state.user rest
      told := state.told ++ entry.news verdicts verdicts.done
      answered := state.answered - 1 } := by
  have held : entry ∈ state.queue state.user := by simp [first]
  have fits := delivered.fits
  have current := delivered.current
  rw [first, List.length_cons] at fits
  obtain ⟨fewer, counts⟩ : ∃ fewer, state.answered = fewer + 1 := ⟨state.answered - 1, by omega⟩
  rw [first, counts, contents, List.map_cons, List.take_succ_cons, ← contents] at current
  -- the entry moves from the committed front of the queue to what is told
  have moved : (doneWrites verdicts state.calls state.user
      (state.told ++ entry.news verdicts verdicts.done) ++ (contents rest).take fewer).Sublist
        (commitsOf state.user state.committed) := by
    rw [sound.doneWrites_news held, List.append_assoc]
    refine List.Sublist.trans (List.Sublist.append_left ?_ _) current
    split
    · exact .refl _
    · exact List.sublist_cons_self _ _
  refine ⟨?_, ?_, fun user => ?_⟩
  · show state.answered - 1 ≤ (Function.update state.queue state.user rest state.user).length
    rw [Function.update_self]
    omega
  · show (doneWrites verdicts state.calls state.user (state.told ++ entry.news verdicts _) ++
      (contents (Function.update state.queue state.user rest state.user)).take
        (state.answered - 1)).Sublist (commitsOf state.user state.committed)
    rw [Function.update_self, show state.answered - 1 = fewer by omega]
    exact moved
  · by_cases same : state.user = user
    · subst same
      exact (List.sublist_append_left _ _).trans moved
    · rw [sound.doneWrites_news held]
      simpa [same] using delivered.others user

/-- A refused entry is no write that is done. -/
theorem refuses (delivered : Delivered verdicts state) (sound : Sound verdicts executed state)
    {entry : Entry M} {rest : List (Entry M)} {status : Status}
    (first : state.queue state.user = entry :: rest) (fails : status ≠ verdicts.done) :
    Delivered verdicts { state with
      queue := Function.update state.queue state.user rest
      told := state.told ++ entry.news verdicts status
      stream := state.stream + 1
      answered := 0 } := by
  refine delivered.unsettled (fun user => ?_) rfl (.inl rfl)
  rw [sound.doneWrites_news (by simp [first] : entry ∈ state.queue state.user)]
  simp [fails]

/-- A step keeps what is done committed. -/
theorem step {after : State User M Status} (delivered : Delivered verdicts state)
    (sound : Sound verdicts executed state) (step : Step verdicts state after) :
    Delivered verdicts after := by
  cases step with
  | calls order =>
    refine delivered.unsettled (fun user => ?_) rfl (.inr ⟨rfl, rfl, List.prefix_rfl⟩)
    exact doneWrites_called (fun news member => (sound.heard news member).trans_le sound.ran) _
  | signsIn user => exact ⟨delivered.fits, delivered.current, delivered.others⟩
  | writes next some =>
    refine delivered.unsettled (fun _ => rfl) rfl (.inr ⟨rfl, rfl, ?_⟩)
    simp [contents]
  | done next prompt =>
    refine delivered.unsettled (fun user => doneWrites_append ?_) rfl
      (.inr ⟨rfl, rfl, List.prefix_rfl⟩)
    intro news member _
    cases List.mem_singleton.mp member
    obtain ⟨rfl, _, _, found, _⟩ := sound.next next
    exact writeOf_prompt found prompt
  | waits next split =>
    refine delivered.unsettled (fun _ => rfl) rfl (.inr ⟨rfl, rfl, ?_⟩)
    simp [split, contents]
  | stays next => exact ⟨delivered.fits, delivered.current, delivered.others⟩
  | changes next _ order _ unanswered =>
    refine delivered.unsettled (fun user => doneWrites_append ?_) rfl (.inl unanswered)
    intro news member done
    obtain ⟨callback, _, rfl⟩ := List.mem_map.mp member
    exact absurd done verdicts.apart
  | closes => exact delivered.unsettled (fun _ => rfl) rfl (.inl rfl)
  | commits next => exact delivered.commits next
  | acknowledges first answered => exact delivered.acknowledges sound first answered
  | refuses first fails => exact delivered.refuses sound first fails

/-- At the start nothing is delivered. -/
theorem starts (starts : Starts state) : Delivered verdicts state := by
  refine ⟨?_, ?_, fun user => ?_⟩
  · rw [starts.answered]
    exact Nat.zero_le _
  · rw [starts.told, starts.answered]
    exact List.nil_sublist _
  · rw [starts.told]
    exact List.nil_sublist _

end Delivered

namespace Streamed

variable {left : User → List (List M)} {executed more : Nat} {state after : State User M Status}
  {verdicts : Verdicts Status}

/-- What the current stream has committed is a stretch of the writes of its user. -/
theorem latest (streamed : Streamed left executed state) : ∃ part,
    part <:+: history left state.calls executed state.user ∧
      commitsOn state.stream state.committed = part.map (Commit.mk state.stream state.user) := by
  obtain ⟨before, acknowledged, split, commits⟩ := streamed.now
  refine ⟨_, ⟨before, (contents (state.queue state.user)).drop state.answered, ?_⟩, commits⟩
  rw [split, List.append_assoc, List.append_assoc, List.take_append_drop]

/-- So it is on every stream. -/
theorem everyStream (streamed : Streamed left executed state) (stream : Nat) : ∃ user part,
    part <:+: history left state.calls executed user ∧
      commitsOn stream state.committed = part.map (Commit.mk stream user) := by
  obtain earlier | rfl | later := Nat.lt_trichotomy stream state.stream
  · exact streamed.stretch stream earlier
  · exact ⟨state.user, streamed.latest⟩
  · refine ⟨state.user, [], List.nil_infix, ?_⟩
    rw [commitsOn, List.map_nil, List.filter_eq_nil_iff]
    intro commit member same
    have past := streamed.past commit member
    have equal : commit.stream = stream := by simpa using same
    omega

/-- Nothing moves: no entry comes or goes, and none is committed. -/
theorem unmoved (streamed : Streamed left executed state)
    (writes : history left after.calls more = history left state.calls executed)
    (queued : ∀ user, contents (after.queue user) = contents (state.queue user))
    (stream : after.stream = state.stream) (committed : after.committed = state.committed)
    (still : after.user = state.user ∧ after.answered = state.answered ∨
      commitsOn state.stream state.committed = [] ∧ after.answered = 0) :
    Streamed left more after := by
  refine ⟨fun user => ?_, ?_, ?_, fun earlier before => ?_⟩
  · rw [Ends, writes, queued]
    exact streamed.kept user
  · rw [writes, queued, stream, committed]
    obtain ⟨same, answered⟩ | ⟨idle, none⟩ := still
    · rw [same, answered]
      exact streamed.now
    · obtain ⟨gone, split⟩ := streamed.kept after.user
      exact ⟨gone, [], split.symm, by simp [idle, none]⟩
  · rw [stream, committed]
    exact streamed.past
  · rw [stream] at before
    rw [writes, committed]
    exact streamed.stretch earlier before

/-- A stream is given up, and the next one has committed nothing. -/
theorem ended (streamed : Streamed left executed state)
    (calls : after.calls = state.calls) (user : after.user = state.user)
    (stream : after.stream = state.stream + 1) (committed : after.committed = state.committed)
    (unanswered : after.answered = 0)
    (kept : ∀ user, Ends (history left state.calls executed) user (after.queue user)) :
    Streamed left executed after := by
  have fresh : commitsOn (state.stream + 1) state.committed = [] := by
    rw [commitsOn, List.filter_eq_nil_iff]
    intro commit member same
    have past := streamed.past commit member
    have equal : commit.stream = state.stream + 1 := by simpa using same
    omega
  refine ⟨?_, ?_, fun commit member => ?_, fun earlier before => ?_⟩
  · rw [calls]
    exact kept
  · obtain ⟨gone, split⟩ := kept state.user
    rw [calls, user, stream, committed, unanswered]
    exact ⟨gone, [], split.symm, by simp [fresh]⟩
  · rw [committed] at member
    have past := streamed.past commit member
    omega
  · rw [calls, committed]
    exact streamed.everyStream earlier

/-- A write of the current user is queued. -/
theorem writes (streamed : Streamed left executed state) {mutations : List M} {callback : Nat}
    {rest : List (Task User M)} (fits : state.answered ≤ (state.queue state.user).length)
    (written : ∀ user, writeOf state.calls user executed =
      if state.user = user then some mutations else none) :
    Streamed left (executed + 1) { state with
      tasks := rest
      queue := Function.update state.queue state.user
        (state.queue state.user ++ [⟨mutations, .some callback, []⟩]) } := by
  have queued : contents (state.queue state.user ++ [⟨mutations, .some callback, []⟩]) =
      contents (state.queue state.user) ++ [mutations] := by simp [contents]
  have longer : history left state.calls (executed + 1) state.user =
      history left state.calls executed state.user ++ [mutations] := by
    rw [history_succ, written, if_pos rfl]
    rfl
  refine ⟨forall_update ?_ fun user apart => ?_, ?_, streamed.past, fun stream earlier => ?_⟩
  · obtain ⟨gone, split⟩ := streamed.kept state.user
    exact ⟨gone, by rw [longer, queued, ← List.append_assoc, split]⟩
  · rw [Ends, history_succ, written, if_neg apart.symm]
    simpa [Ends] using streamed.kept user
  · obtain ⟨before, acknowledged, split, commits⟩ := streamed.now
    have short : state.answered ≤ (contents (state.queue state.user)).length := by
      rw [contents, List.length_map]
      exact fits
    refine ⟨before, acknowledged, ?_, ?_⟩
    · simp only [Function.update_self]
      rw [longer, queued, split]
      simp only [List.append_assoc]
    · simp only [Function.update_self]
      rw [queued, List.take_append_of_le_length short]
      exact commits
  · obtain ⟨user, part, stretch, commits⟩ := streamed.stretch stream earlier
    refine ⟨user, part, stretch.trans ?_, commits⟩
    rw [history_succ]
    exact (List.prefix_append _ _).isInfix

/-- The server commits the next entry on the current stream. -/
theorem commits (streamed : Streamed left executed state) {entry : Entry M}
    (next : (state.queue state.user)[state.answered]? = some entry) :
    Streamed left executed { state with
      answered := state.answered + 1
      committed := state.committed ++ [⟨state.stream, state.user, entry.mutations⟩] } := by
  refine ⟨streamed.kept, ?_, fun commit member => ?_, fun stream earlier => ?_⟩
  · obtain ⟨before, acknowledged, split, commits⟩ := streamed.now
    refine ⟨before, acknowledged, split, ?_⟩
    have taken : (contents (state.queue state.user)).take (state.answered + 1) =
        (contents (state.queue state.user)).take state.answered ++ [entry.mutations] := by
      rw [List.take_add_one, contents, List.getElem?_map, next]
      rfl
    have more : commitsOn state.stream (state.committed ++
        [⟨state.stream, state.user, entry.mutations⟩]) = commitsOn state.stream state.committed ++
          [⟨state.stream, state.user, entry.mutations⟩] := by simp [commitsOn]
    simp only [more, commits, taken, List.map_append, List.append_assoc, List.map_cons,
      List.map_nil]
  · obtain before | added := List.mem_append.mp member
    · exact streamed.past commit before
    · cases List.mem_singleton.mp added
      exact le_rfl
  · have same : commitsOn stream (state.committed ++
        [⟨state.stream, state.user, entry.mutations⟩]) = commitsOn stream state.committed := by
      have apart : state.stream ≠ stream := Nat.ne_of_gt earlier
      simp [commitsOn, apart]
    rw [same]
    exact streamed.stretch stream earlier

/-- What is left of a queue without its first entry is still the end. -/
theorem shorter (streamed : Streamed left executed state) {entry : Entry M}
    {rest : List (Entry M)} (first : state.queue state.user = entry :: rest) :
    ∀ user, Ends (history left state.calls executed) user
      (Function.update state.queue state.user rest user) := by
  refine forall_update ?_ fun user _ => streamed.kept user
  obtain ⟨gone, split⟩ := streamed.kept state.user
  exact ⟨gone ++ [entry.mutations], by simp [← split, first, contents]⟩

/-- The first entry is answered. -/
theorem acknowledges (streamed : Streamed left executed state) {entry : Entry M}
    {rest : List (Entry M)} (first : state.queue state.user = entry :: rest)
    (answered : 0 < state.answered) (told : List (Nat × Status)) :
    Streamed left executed { state with
      queue := Function.update state.queue state.user rest
      told
      answered := state.answered - 1 } := by
  refine ⟨streamed.shorter first, ?_, streamed.past, streamed.stretch⟩
  obtain ⟨before, acknowledged, split, commits⟩ := streamed.now
  obtain ⟨fewer, counts⟩ : ∃ fewer, state.answered = fewer + 1 :=
    ⟨state.answered - 1, by omega⟩
  refine ⟨before, acknowledged ++ [entry.mutations], ?_, ?_⟩
  · simp [split, first, contents]
  · simp [commits, first, contents, counts]

/-- A step keeps the books of the streams. -/
theorem step [DecidableEq Status] (streamed : Streamed left executed state)
    (sound : Sound verdicts executed state) (delivered : Delivered verdicts state)
    (step : Step verdicts state after) :
    ∃ more, Sound verdicts more after ∧ Streamed left more after := by
  cases step with
  | calls order =>
    refine ⟨executed, sound.called order, streamed.unmoved ?_ (fun _ => rfl) rfl rfl
      (.inl ⟨rfl, rfl⟩)⟩
    exact history_append left sound.ran _
  | signsIn user =>
    exact ⟨executed, sound.signsIn user, streamed.unmoved rfl (fun _ => rfl) rfl rfl
      (.inl ⟨rfl, rfl⟩)⟩
  | writes next some =>
    obtain ⟨rfl, _, _, found, _⟩ := sound.next next
    exact ⟨_, sound.writes next some, streamed.writes delivered.fits
      fun user => writeOf_write found some⟩
  | done next prompt =>
    obtain ⟨rfl, _, _, found, _⟩ := sound.next next
    refine ⟨_, sound.done next prompt, streamed.unmoved (funext fun user => ?_) (fun _ => rfl) rfl
      rfl (.inl ⟨rfl, rfl⟩)⟩
    rw [history_succ, writeOf_prompt found prompt]
    exact List.append_nil _
  | waits next split =>
    obtain ⟨rfl, _, _, found, _⟩ := sound.next next
    refine ⟨_, sound.waits next split, streamed.unmoved (funext fun user => ?_) (fun user => ?_) rfl
      rfl (.inl ⟨rfl, rfl⟩)⟩
    · rw [history_succ, writeOf_wait found]
      exact List.append_nil _
    · by_cases same : user = state.user
      · subst same
        simp [split, contents]
      · simp [same]
  | stays next =>
    exact ⟨executed, sound.stays next, streamed.unmoved rfl (fun _ => rfl) rfl rfl
      (.inl ⟨rfl, rfl⟩)⟩
  | changes next _ order idle unanswered =>
    refine ⟨executed, sound.changes next order, streamed.unmoved rfl (fun user => ?_) rfl rfl
      (.inr ⟨?_, unanswered⟩)⟩
    · by_cases same : user = state.user
      · subst same
        simp [contents, Entry.release, Function.comp_def]
      · simp [same]
    · rw [commitsOn, List.filter_eq_nil_iff]
      intro commit member same
      exact absurd (idle commit member) (by simpa using (of_decide_eq_true same).ge)
  | closes =>
    exact ⟨executed, ⟨sound.ran, sound.remaining, sound.attributed, sound.heard, sound.booked,
      sound.heeded⟩, streamed.ended rfl rfl rfl rfl rfl streamed.kept⟩
  | commits next =>
    exact ⟨executed, ⟨sound.ran, sound.remaining, sound.attributed, sound.heard, sound.booked,
      sound.heeded⟩, streamed.commits next⟩
  | acknowledges first answered =>
    exact ⟨executed, sound.settles first verdicts.done _ _,
      streamed.acknowledges first answered _⟩
  | refuses first _ =>
    exact ⟨executed, sound.settles first _ _ _,
      streamed.ended rfl rfl rfl rfl rfl (streamed.shorter first)⟩

/-- At the start no stream has committed anything. -/
theorem starts (starts : Starts state) :
    Streamed (fun user => contents (state.queue user)) 0 state := by
  refine ⟨fun user => ⟨[], List.append_nil _ |>.symm⟩, ⟨[], [], ?_, ?_⟩, ?_, ?_⟩
  · exact List.append_nil _
  · rw [starts.committed, starts.answered]
    rfl
  · rw [starts.committed]
    exact nofun
  · intro stream _
    exact ⟨state.user, [], List.nil_infix, by rw [starts.committed]; rfl⟩

/-- Along a run all books are right. -/
theorem run [DecidableEq Status] {first : State User M Status} (begins : Starts first)
    (steps : Steps verdicts first state) : ∃ executed, Sound verdicts executed state ∧
      Delivered verdicts state ∧
      Streamed (fun user => contents (first.queue user)) executed state := by
  induction steps with
  | refl => exact ⟨0, Sound.starts begins, Delivered.starts begins, starts begins⟩
  | tail _ last inductionHypothesis =>
    obtain ⟨executed, sound, delivered, streamed⟩ := inductionHypothesis
    obtain ⟨more, after, commits⟩ := streamed.step sound delivered last
    exact ⟨more, after, delivered.step sound last, commits⟩

end Streamed

end Outbox
