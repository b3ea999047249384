import ECN.Stream

/-!
# Polling by offset

A consumer that always polls from the returned offset is a reader of the topic's log:
among any other calls on the bus it receives every event once and in order, except
those that the ring buffer dropped before it came to them.
-/
namespace ECN

variable {π : Type*}

/-- An answered poll; `published` counts the events published on the topic before it. -/
structure Poll (π : Type*) where
  limit : ℕ
  published : ℕ
  response : PollResponse π

/-- One consumer of a topic, among the other users of the bus. -/
structure Polling (π : Type*) where
  bus : EventBus π
  published : Topic → List π
  offset : ℕ
  polls : List (Poll π)

inductive PollMove (π : Type*) where
  | other (move : BusMove π)
  | poll (limit : ℕ)

/-- The limit that a poll asks for. -/
def PollMove.limit? : PollMove π → Option ℕ
  | .other _ => none
  | .poll limit => some limit

/-- Everything that polls have returned. -/
def deliveredEvents (polls : List (Poll π)) : List (StreamEvent π) :=
  polls.flatMap fun p => p.response.events

/-- Some poll found the event evicted, by `maxlen` later ones, when it came to it. -/
def EvictedAt (maxlen : ℕ) (polls : List (Poll π)) (n : ℕ) : Prop :=
  ∃ p ∈ polls, p.response.offset ≤ n ∧ n + maxlen < p.published

/-- The read that a poll makes. -/
def Poll.toRecord (p : Poll π) : RetainedLog.Record π :=
  ⟨p.response.offset, max 1 p.limit, p.published, p.response.events.map StreamEvent.entry⟩

theorem delivered_toRecord (polls : List (Poll π)) :
    RetainedLog.delivered (polls.map Poll.toRecord) =
      (deliveredEvents polls).map StreamEvent.entry := by
  induction polls with
  | nil => rfl
  | cons p polls ih =>
    have hcons : RetainedLog.delivered ((p :: polls).map Poll.toRecord) =
        p.response.events.map StreamEvent.entry ++
          RetainedLog.delivered (polls.map Poll.toRecord) := rfl
    rw [hcons, ih, ← List.map_append]
    rfl

/-- An event that the reads account for was delivered or evicted. -/
theorem delivered_or_evicted {maxlen n : ℕ} {polls : List (Poll π)}
    (h : RetainedLog.Accounted maxlen (polls.map Poll.toRecord) n) :
    (∃ event ∈ deliveredEvents polls, event.seq = n) ∨ EvictedAt maxlen polls n := by
  rcases h with ⟨e, he, hn⟩ | ⟨r, hr, ho, hgone⟩
  · rw [delivered_toRecord] at he
    obtain ⟨event, hevent, rfl⟩ := List.mem_map.mp he
    exact .inl ⟨event, hevent, hn⟩
  · obtain ⟨p, hp, rfl⟩ := List.mem_map.mp hr
    exact .inr ⟨p, hp, ho, hgone⟩

/-- A poll answers with the read of the topic's log. -/
theorem pollTopic_name {bus : EventBus π} {published : Topic → List π} (h : bus.Holds published)
    (t : Topic) (offset limit : ℕ) :
    let entries := RetainedLog.read bus.maxlen (published t) offset (max 1 limit)
    pollTopic (some bus) t.name offset limit = .ok {
      topic := t.name
      offset
      count := entries.length
      nextOffset := RetainedLog.following offset entries
      events := entries.map fun e => ⟨e.1, t.name, e.2⟩ } := by
  intro entries
  have hconsume := h.consume t offset limit
  have hnext : ((entries.map fun e => (⟨e.1, t.name, e.2⟩ : StreamEvent π)).getLast?.map
      fun event => event.seq + 1) = entries.getLast?.map fun e => e.1 + 1 := by
    rw [List.getLast?_map, Option.map_map]
    rfl
  have hlen : (entries.map fun e => (⟨e.1, t.name, e.2⟩ : StreamEvent π)).length =
      entries.length := List.length_map _
  simp only [pollTopic, requireEventBus, bind, Except.bind, hconsume]
  rw [hnext, hlen]
  rfl

namespace Polling

/-- A new bus and a consumer that will start at some offset. -/
def start (maxlen offset : ℕ) : Polling π := ⟨.new π maxlen, fun _ => [], offset, []⟩

/-- The consumer polls from where its last poll ended. -/
def step (topic : Topic) (s : Polling π) : PollMove π → Polling π
  | .other move =>
    { s with bus := s.bus.apply move, published := fun t => s.published t ++ move.payloads t }
  | .poll limit =>
    match pollTopic (some s.bus) topic.name s.offset limit with
    | .error _ => s
    | .ok response =>
      { s with
        offset := response.nextOffset
        polls := s.polls ++ [⟨limit, (s.published topic).length, response⟩] }

/-- The polls so far are the reads of one session. -/
structure Reads (maxlen : ℕ) (topic : Topic) (offset : ℕ) (s : Polling π) : Prop where
  holds : s.bus.Holds s.published
  capacity : s.bus.maxlen = maxlen
  session : RetainedLog.Session maxlen offset (s.published topic) s.offset
    (s.polls.map Poll.toRecord)

theorem Reads.start (maxlen : ℕ) (topic : Topic) (offset : ℕ) :
    Reads maxlen topic offset (start maxlen offset : Polling π) where
  holds := EventBus.holds_new maxlen
  capacity := rfl
  session := .opened

theorem Reads.step {maxlen : ℕ} {topic : Topic} {offset : ℕ} {s : Polling π}
    (h : Reads maxlen topic offset s) (move : PollMove π) :
    Reads maxlen topic offset (s.step topic move) := by
  cases move with
  | other move =>
    obtain ⟨hmax, hholds⟩ := h.holds.apply move
    refine ⟨hholds, hmax.trans h.capacity, ?_⟩
    have hpayloads : move.payloads topic = [] ∨ ∃ x, move.payloads topic = [x] := by
      cases move with
      | publish name payload =>
        rw [BusMove.payloads]
        split
        · exact .inr ⟨payload, rfl⟩
        · exact .inl rfl
      | subscribe topics maxsize => exact .inl rfl
      | unsubscribe q => exact .inl rfl
      | get q => exact .inl rfl
    simp only [Polling.step]
    rcases hpayloads with hnone | ⟨x, hone⟩
    · rw [hnone, List.append_nil]
      exact h.session
    · rw [hone]
      exact h.session.grows x
  | poll limit =>
    have hread := h.session.reads (max 1 limit)
    have hevents : ∀ entries : List (ℕ × π), (entries.map fun e =>
        (⟨e.1, topic.name, e.2⟩ : StreamEvent π)).map StreamEvent.entry = entries := by
      intro entries
      rw [List.map_map]
      exact List.map_id _
    rw [Polling.step, pollTopic_name h.holds]
    refine ⟨h.holds, h.capacity, ?_⟩
    simp only [h.capacity, List.map_append, List.map_cons, List.map_nil, Poll.toRecord, hevents]
    exact hread

theorem Reads.run {maxlen : ℕ} {topic : Topic} {offset : ℕ} {s : Polling π}
    (h : Reads maxlen topic offset s) (moves : List (PollMove π)) :
    Reads maxlen topic offset (moves.foldl (Polling.step topic) s) := by
  induction moves generalizing s with
  | nil => exact h
  | cons move moves ih => exact ih (h.step move)

theorem Reads.answered {maxlen : ℕ} {topic : Topic} {offset : ℕ} {s : Polling π}
    (h : Reads maxlen topic offset s) (limit : ℕ) :
    ∃ response, pollTopic (some s.bus) topic.name s.offset limit = .ok response :=
  ⟨_, pollTopic_name h.holds topic s.offset limit⟩

/-- A move adds its poll, and no other, to the answered ones. -/
theorem Reads.step_limits {maxlen : ℕ} {topic : Topic} {offset : ℕ} {s : Polling π}
    (h : Reads maxlen topic offset s) (move : PollMove π) :
    (s.step topic move).polls.map Poll.limit =
      s.polls.map Poll.limit ++ move.limit?.toList := by
  cases move with
  | other move => exact (List.append_nil _).symm
  | poll limit =>
    obtain ⟨response, hresponse⟩ := h.answered limit
    simp only [Polling.step, hresponse, List.map_append]
    rfl

theorem Reads.run_limits {maxlen : ℕ} {topic : Topic} {offset : ℕ} {s : Polling π}
    (h : Reads maxlen topic offset s) (moves : List (PollMove π)) :
    (moves.foldl (Polling.step topic) s).polls.map Poll.limit =
      s.polls.map Poll.limit ++ moves.filterMap PollMove.limit? := by
  induction moves generalizing s with
  | nil => exact (List.append_nil _).symm
  | cons move moves ih =>
    rw [List.foldl_cons, ih (h.step move), h.step_limits, List.append_assoc]
    cases hmove : move.limit? with
    | none => rw [List.filterMap_cons_none hmove]; rfl
    | some limit => rw [List.filterMap_cons_some hmove]; rfl

/-- Every poll is answered. The consumer receives increasing numbers, each with the payload
published under it, and after a poll that returns less than its limit everything published
before that poll was delivered or evicted. -/
theorem lossless (maxlen : ℕ) (topic : Topic) (offset : ℕ) (moves : List (PollMove π)) :
    let s := moves.foldl (step topic) (start maxlen offset)
    (∀ limit, ∃ response, pollTopic (some s.bus) topic.name s.offset limit = .ok response) ∧
    s.polls.map Poll.limit = moves.filterMap PollMove.limit? ∧
    ((deliveredEvents s.polls).map StreamEvent.seq).Pairwise (· < ·) ∧
    (∀ event ∈ deliveredEvents s.polls, (s.published topic)[event.seq]? = some event.payload) ∧
    ∀ before p after, s.polls = before ++ p :: after → p.response.events.length < p.limit →
      ∀ n, offset ≤ n → n < p.published →
        (∃ event ∈ deliveredEvents (before ++ [p]), event.seq = n) ∨
          EvictedAt maxlen (before ++ [p]) n := by
  intro s
  have hreads : Reads maxlen topic offset s := (Reads.start maxlen topic offset).run moves
  refine ⟨hreads.answered, (Reads.start maxlen topic offset).run_limits moves, ?_, ?_, ?_⟩
  · have hincreasing := hreads.session.increasing.1
    rw [delivered_toRecord, List.map_map] at hincreasing
    exact hincreasing
  · intro event hevent
    apply hreads.session.genuine event.entry
    rw [delivered_toRecord]
    exact List.mem_map_of_mem hevent
  · intro before p after hpolls hshort n hs hn
    have hrecords : s.polls.map Poll.toRecord =
        before.map Poll.toRecord ++ p.toRecord :: after.map Poll.toRecord := by
      rw [hpolls, List.map_append, List.map_cons]
    have hless : p.toRecord.entries.length < p.toRecord.limit := by
      simp only [Poll.toRecord, List.length_map]
      omega
    apply delivered_or_evicted
    rw [List.map_append]
    exact hreads.session.short hrecords hless hs hn

/-- Three events pass through a buffer of two before the first poll: the first is evicted,
and the two polls deliver the others. -/
theorem lossless_evicted :
    let s := [.other (.publish "transactions" 7), .other (.publish "transactions" 8),
      .other (.publish "transactions" 9), .poll 1, .poll 5].foldl
        (step .transactions) (start 2 0 : Polling ℕ)
    (deliveredEvents s.polls).map StreamEvent.entry = [(1, 8), (2, 9)] ∧
      s.polls.map Poll.limit = [1, 5] ∧
      ∀ n < 3, (∃ event ∈ deliveredEvents s.polls, event.seq = n) ∨ EvictedAt 2 s.polls n := by
  intro s
  have hpolls : s.polls = [⟨1, 3, ⟨"transactions", 0, 1, 2, [⟨1, "transactions", 8⟩]⟩⟩,
      ⟨5, 3, ⟨"transactions", 2, 1, 3, [⟨2, "transactions", 9⟩]⟩⟩] := by rfl
  obtain ⟨-, hlimits, -, -, hall⟩ := lossless 2 .transactions 0
    [.other (.publish "transactions" 7), .other (.publish "transactions" 8),
      .other (.publish "transactions" 9), .poll 1, .poll (π := ℕ) 5]
  refine ⟨by rw [hpolls]; rfl, hlimits, fun n hn => ?_⟩
  rw [hpolls]
  exact hall [_] _ [] hpolls (by decide) n (Nat.zero_le n) hn

end Polling
end ECN
