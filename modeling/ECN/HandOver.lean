import ECN.Runs
import ECN.Stream

/-!
# From the replay to the live stream

The generator takes a snapshot of the buffer and subscribes only after the last event of
it. What is published on the topic while it is suspended in between is neither in the
snapshot nor put into its queue, so it is never sent. Without such events the stream has
no gap.
-/
namespace ECN

variable {π : Type*}

/-- A stream generator and the bus it reads. -/
structure Streaming (π : Type*) where
  bus : EventBus π
  gen : SseGenerator π

inductive StreamMove (π : Type*) where
  | publish (topic : String) (payload : π)
  | resume (timedOut : Bool)
  | close

/-- The payloads that a step publishes on a topic. -/
def StreamMove.payloads (t : Topic) : StreamMove π → List π
  | .publish name payload => (BusMove.publish name payload).payloads t
  | .resume _ => []
  | .close => []

namespace Streaming

def step (s : Streaming π) : StreamMove π → Streaming π
  | .publish topic payload => { s with bus := s.bus.apply (.publish topic payload) }
  | .resume timedOut => ⟨(s.gen.resume s.bus timedOut).1, (s.gen.resume s.bus timedOut).2⟩
  | .close => ⟨(s.gen.close s.bus).1, (s.gen.close s.bus).2⟩

/-- The consumer of one topic has just connected: the generator has run its first step. -/
def connect (bus : EventBus π) (topic : Topic) (backfill : ℕ) : Streaming π :=
  (⟨bus, .new [topic.name] none backfill⟩ : Streaming π).step (.resume false)

/-- The first of the newest `backfill` buffered events. -/
def firstBackfilled (bus : EventBus π) (topic : Topic) (backfill : ℕ) : ℕ :=
  bus.seq topic - min backfill (bus.buffers topic).length

/-- The numbers sent so far. -/
def sent (s : Streaming π) : List ℕ := s.gen.emitted.map Prod.fst

/-- What the generator has taken on but not sent yet. -/
def backlog (s : Streaming π) : List (ℕ × π) :=
  match s.gen.phase with
  | .replay events _ => events.map StreamEvent.entry
  | .live q => s.bus.waiting q
  | _ => []

/-- The generator waits in the live loop and its queue is empty. -/
def Idle (s : Streaming π) : Prop := ∃ q ∈ s.gen.phase.queue, s.bus.waiting q = []

/-- The numbers sent form a range from the first backfilled event on, which has reached
the last published event when the consumer is idle. -/
def GapFree (topic : Topic) (first : ℕ) (s : Streaming π) : Prop :=
  s.sent = List.range' first s.sent.length ∧
    (s.Idle → first + s.sent.length = s.bus.seq topic)

/-- The queue of the generator has room for what is published. -/
def HasRoom (s : Streaming π) : StreamMove π → Prop
  | .publish _ _ => ∀ q ∈ s.gen.phase.queue, ∀ queue ∈ s.bus.queues[q]?, queue.full = false
  | _ => True

/-- Nothing is published on the topic while the generator is suspended at a backfilled
event. -/
def QuietReplay (topic : Topic) (s : Streaming π) : StreamMove π → Prop
  | .publish name _ => s.gen.phase.replaying = true → Topic.ofName name ≠ some topic
  | _ => True

instance (s : Streaming π) : Decidable s.Idle :=
  inferInstanceAs (Decidable (∃ q ∈ s.gen.phase.queue, s.bus.waiting q = []))

instance (topic : Topic) (first : ℕ) (s : Streaming π) : Decidable (s.GapFree topic first) :=
  inferInstanceAs (Decidable (_ ∧ (_ → _)))

instance (s : Streaming π) : ∀ move, Decidable (s.HasRoom move)
  | .publish _ _ => inferInstanceAs (Decidable (∀ q ∈ _, ∀ queue ∈ _, _ = _))
  | .resume _ => inferInstanceAs (Decidable True)
  | .close => inferInstanceAs (Decidable True)

instance (topic : Topic) (s : Streaming π) : ∀ move, Decidable (s.QuietReplay topic move)
  | .publish _ _ => inferInstanceAs (Decidable (_ → _ ≠ _))
  | .resume _ => inferInstanceAs (Decidable True)
  | .close => inferInstanceAs (Decidable True)

/-! ## What the generator carries -/

/-- The stream is over. -/
def Done (s : Streaming π) : Prop :=
  match s.gen.phase with
  | .finished => True
  | _ => False

/-- Everything taken on, sent or not. -/
def taken (s : Streaming π) : List (ℕ × π) := s.gen.emitted ++ s.backlog

/-- Behind the first step: the one topic is being replayed, or the queue is subscribed to
it once and to nothing else, or the stream is over. -/
def Joined (topic : Topic) (s : Streaming π) : Prop :=
  match s.gen.phase with
  | .replay _ topics => topics = [] ∧ s.gen.topics = [topic.name]
  | .live q => q < s.bus.queues.length ∧
      ∀ t, (s.bus.subscribers t).count q = if t = topic then 1 else 0
  | .finished => True
  | _ => False

/-- A joined stream without limit on a bus that holds what was published. -/
structure Carries (topic : Topic) (published : Topic → List π) (s : Streaming π) : Prop where
  holds : s.bus.Holds published
  unlimited : s.gen.limit = none
  joined : s.Joined topic

/-- What a step does to the log of the topic and to what the stream has taken on: nothing,
a new event on both, or the stream is over. -/
inductive Effect (s s' : Streaming π) (items items' : List π) : Prop where
  | kept (hitems : items' = items) (htaken : s'.taken = s.taken) (hdone : s'.Done ↔ s.Done)
  | queued (payload : π) (hitems : items' = items ++ [payload])
      (htaken : s'.taken = s.taken ++ [(items.length, payload)]) (hdone : ¬ s.Done)
      (hdone' : ¬ s'.Done)
  | over (hitems : items <+: items') (htaken : s'.taken <+: s.taken) (hdone : s'.Done)

variable {topic : Topic} {published : Topic → List π} {s : Streaming π}

theorem Carries.publish (h : Carries topic published s) {name : String} {payload : π}
    (hroom : s.HasRoom (.publish name payload)) (hquiet : s.QuietReplay topic (.publish name payload)) :
    let move : StreamMove π := .publish name payload
    Carries topic (fun t => published t ++ move.payloads t) (s.step move) ∧
      Effect s (s.step move) (published topic) (published topic ++ move.payloads topic) := by
  intro move
  obtain ⟨hholds, hlimit, hjoined⟩ := h
  cases ht : Topic.ofName name with
  | none =>
    have hstep : s.step (.publish name payload) = s := by
      rw [step, EventBus.apply_publish_unknown s.bus ht]
    have hnone : ∀ t, move.payloads t = [] := fun t => by
      simp [move, StreamMove.payloads, BusMove.payloads, ht]
    simp only [move, hstep, hnone, List.append_nil]
    exact ⟨⟨hholds, hlimit, hjoined⟩, .kept rfl rfl Iff.rfl⟩
  | some t =>
    obtain rfl := EventBus.name_of_ofName ht
    obtain ⟨after, hafter, -, hsubs, hqueues, hholds'⟩ := hholds.publish t payload
    have hstep : s.step (.publish t.name payload) = { s with bus := after } := by
      rw [step, hafter]
    have hmove : ∀ t', move.payloads t' = if t = t' then [payload] else [] := fun t' => by
      simp [move, StreamMove.payloads, BusMove.payloads]
    have hupdate : Function.update published t (published t ++ [payload]) =
        fun t' => published t' ++ move.payloads t' := by
      funext t'
      rw [hmove]
      by_cases heq : t = t'
      · subst heq
        simp
      · rw [Function.update_of_ne (Ne.symm heq), if_neg heq, List.append_nil]
    have hother : topic ≠ t → published topic ++ move.payloads topic = published topic :=
      fun hne => by rw [hmove, if_neg (Ne.symm hne), List.append_nil]
    rw [hupdate] at hholds'
    simp only [move, hstep]
    refine ⟨⟨hholds', hlimit, ?_⟩, ?_⟩
    · unfold Joined at hjoined ⊢
      dsimp only
      rw [hsubs, hqueues, length_fanOut]
      exact hjoined
    · cases hphase : s.gen.phase with
      | created => simp [Joined, hphase] at hjoined
      | raised e => simp [Joined, hphase] at hjoined
      | finished =>
        refine .over (List.prefix_append _ _) ?_ (by simp [Done, hphase])
        simp [taken, backlog, hphase]
      | replay events topics =>
        have hne : topic ≠ t := by
          have hname : Topic.ofName t.name ≠ some topic := hquiet (by rw [hphase]; rfl)
          rw [Topic.ofName_name] at hname
          exact fun heq => hname (by rw [heq])
        refine .kept (hother hne) ?_ Iff.rfl
        simp [taken, backlog, hphase]
      | live q =>
        simp only [Joined, hphase] at hjoined
        obtain ⟨hq, hcount⟩ := hjoined
        have hroom := hroom q (by rw [hphase]; rfl)
        by_cases heq : t = topic
        · subst heq
          have hwaiting := EventBus.waiting_fanOut hqueues hq (by simpa using hcount t) hroom
          have hnew : published t ++ move.payloads t = published t ++ [payload] := by
            rw [hmove, if_pos rfl]
          refine .queued payload hnew ?_ (by simp [Done, hphase]) (by simp [Done, hphase])
          simp [taken, backlog, hphase, hwaiting]
        · have hwaiting := EventBus.waiting_fanOut_of_notMem hqueues
            (show (s.bus.subscribers t).count q = 0 by simpa [heq] using hcount t)
          refine .kept (hother (Ne.symm heq)) ?_ Iff.rfl
          simp [taken, backlog, hphase, hwaiting]

/-- A publish while an event of the snapshot is being sent passes the stream by. -/
theorem Carries.missed (h : Carries topic published s) {move : StreamMove π}
    (hquiet : ¬ s.QuietReplay topic move) :
    ∃ published' payload, Carries topic published' (s.step move) ∧
      published' topic = published topic ++ [payload] ∧ (s.step move).taken = s.taken ∧
      ¬ s.Done ∧ ¬ (s.step move).Done := by
  obtain ⟨hholds, hlimit, hjoined⟩ := h
  cases move with
  | resume timedOut => simp [QuietReplay] at hquiet
  | close => simp [QuietReplay] at hquiet
  | publish name payload =>
    cases hphase : s.gen.phase with
    | created => simp [QuietReplay, hphase, SsePhase.replaying] at hquiet
    | raised e => simp [QuietReplay, hphase, SsePhase.replaying] at hquiet
    | finished => simp [QuietReplay, hphase, SsePhase.replaying] at hquiet
    | live q => simp [QuietReplay, hphase, SsePhase.replaying] at hquiet
    | replay events topics =>
      have ht : Topic.ofName name = some topic := by
        simpa [QuietReplay, hphase, SsePhase.replaying] using hquiet
      obtain rfl := EventBus.name_of_ofName ht
      obtain ⟨after, hafter, -, -, -, hholds'⟩ := hholds.publish topic payload
      have hstep : s.step (.publish topic.name payload) = { s with bus := after } := by
        rw [step, hafter]
      rw [hstep]
      refine ⟨_, payload, ⟨hholds', hlimit, ?_⟩, Function.update_self _ _ _, ?_, ?_, ?_⟩
      · simpa [Joined, hphase] using hjoined
      · simp [taken, backlog, hphase]
      · simp [Done, hphase]
      · simp [Done, hphase]

/-- The live loop moves the next event from the queue to the consumer. -/
theorem carries_liveLoop {gen : SseGenerator π} (hlimit : gen.limit = none) {bus : EventBus π}
    (hholds : bus.Holds published) {q : ℕ} (hq : q < bus.queues.length)
    (hcount : ∀ t, (bus.subscribers t).count q = if t = topic then 1 else 0) (timedOut : Bool) :
    let s' : Streaming π := ⟨(gen.liveLoop bus timedOut q).1, (gen.liveLoop bus timedOut q).2⟩
    Carries topic published s' ∧ s'.taken = gen.emitted ++ bus.waiting q ∧ ¬ s'.Done := by
  cases hwaiting : bus.waiting q with
  | nil =>
    rw [SseGenerator.liveLoop_empty hlimit hwaiting]
    refine ⟨⟨hholds, hlimit, hq, hcount⟩, ?_, id⟩
    simp [taken, backlog, SseGenerator.filterMap_heartbeat, hwaiting]
  | cons item items =>
    rw [SseGenerator.liveLoop_item hlimit hwaiting]
    have hq' : q < (bus.queues.modify q fun queue => { queue with items }).length := by
      rw [List.length_modify]
      exact hq
    refine ⟨⟨hholds.modify q _, hlimit, hq', hcount⟩, ?_, id⟩
    have hrest := bus.waiting_of_modify items hq
    simp [taken, backlog, hrest, SseChunk.entry]

/-- The subscription that ends the replay starts with an empty queue. -/
theorem carries_subscribe {gen : SseGenerator π} (hlimit : gen.limit = none)
    (htopics : gen.topics = [topic.name]) {bus : EventBus π} (hholds : bus.Holds published)
    (timedOut : Bool) :
    let s' : Streaming π :=
      ⟨(gen.replayLoop bus timedOut [] []).1, (gen.replayLoop bus timedOut [] []).2⟩
    Carries topic published s' ∧ s'.taken = gen.emitted ∧ ¬ s'.Done := by
  have hcount : ∀ t, ((bus.subscribeLive gen.topics 256).1.subscribers t).count
      bus.queues.length = if t = topic then 1 else 0 := by
    intro t
    have hfresh : bus.queues.length ∉ bus.subscribers t := by
      intro hmem
      exact lt_irrefl _ (hholds.subscribers t _ hmem)
    rw [EventBus.subscribers_subscribeLive, List.count_append, List.count_eq_zero_of_not_mem hfresh,
      List.count_replicate_self, htopics]
    by_cases ht : t = topic
    · subst ht
      simp
    · have hne : topic ≠ t := Ne.symm ht
      simp [ht, hne]
  have hq : bus.queues.length < (bus.subscribeLive gen.topics 256).1.queues.length := by
    simp [EventBus.subscribeLive]
  have hloop := carries_liveLoop hlimit (hholds.subscribeLive gen.topics 256) hq hcount timedOut
  rw [EventBus.waiting_subscribeLive, List.append_nil] at hloop
  exact hloop

/-- Going on moves an event from the backlog to the consumer. -/
theorem Carries.resume (h : Carries topic published s) (timedOut : Bool) :
    Carries topic published (s.step (.resume timedOut)) ∧
      (s.step (.resume timedOut)).taken = s.taken ∧
      ((s.step (.resume timedOut)).Done ↔ s.Done) := by
  obtain ⟨hholds, hlimit, hjoined⟩ := h
  cases hphase : s.gen.phase with
  | created => simp [Joined, hphase] at hjoined
  | raised e => simp [Joined, hphase] at hjoined
  | finished =>
    have hstep : s.step (.resume timedOut) = s := by
      simp [step, SseGenerator.resume, hphase]
    rw [hstep]
    exact ⟨⟨hholds, hlimit, hjoined⟩, rfl, Iff.rfl⟩
  | live q =>
    simp only [Joined, hphase] at hjoined
    obtain ⟨hcarries, htaken, hdone⟩ :=
      carries_liveLoop hlimit hholds hjoined.1 hjoined.2 timedOut
    have hstep : s.step (.resume timedOut) =
        ⟨(s.gen.liveLoop s.bus timedOut q).1, (s.gen.liveLoop s.bus timedOut q).2⟩ := by
      simp only [step, SseGenerator.resume, hphase]
    rw [hstep]
    refine ⟨hcarries, htaken.trans ?_, iff_of_false hdone (by simp [Done, hphase])⟩
    simp only [taken, backlog, hphase]
  | replay events topics =>
    simp only [Joined, hphase] at hjoined
    obtain ⟨rfl, htopics⟩ := hjoined
    have hstep : s.step (.resume timedOut) = ⟨(s.gen.replayLoop s.bus timedOut [] events).1,
        (s.gen.replayLoop s.bus timedOut [] events).2⟩ := by
      simp [step, SseGenerator.resume, hphase, SseGenerator.limitReached, hlimit]
    have hnot : ¬ s.Done := by simp [Done, hphase]
    rw [hstep]
    cases events with
    | nil =>
      obtain ⟨hcarries, htaken, hdone⟩ := carries_subscribe hlimit htopics hholds timedOut
      refine ⟨hcarries, htaken.trans ?_, iff_of_false hdone hnot⟩
      simp [taken, backlog, hphase]
    | cons event events =>
      refine ⟨⟨hholds, hlimit, ?_⟩, ?_, iff_of_false id hnot⟩
      · exact ⟨rfl, htopics⟩
      · simp [SseGenerator.replayLoop, taken, backlog, hphase, SseChunk.entry, StreamEvent.entry]

theorem Carries.close (h : Carries topic published s) :
    Carries topic published (s.step .close) ∧ (s.step .close).taken <+: s.taken ∧
      (s.step .close).Done := by
  obtain ⟨hholds, hlimit, hjoined⟩ := h
  cases hphase : s.gen.phase with
  | created => simp [Joined, hphase] at hjoined
  | raised e => simp [Joined, hphase] at hjoined
  | finished =>
    have hstep : s.step .close = ⟨s.bus, s.gen.suspend .finished []⟩ := by
      simp [step, SseGenerator.close, hphase]
    rw [hstep]
    refine ⟨⟨hholds, hlimit, trivial⟩, ?_, trivial⟩
    simp [taken, backlog, hphase]
  | replay events topics =>
    have hstep : s.step .close = ⟨s.bus, s.gen.suspend .finished []⟩ := by
      simp [step, SseGenerator.close, hphase]
    rw [hstep]
    refine ⟨⟨hholds, hlimit, trivial⟩, ?_, trivial⟩
    simp [taken, backlog]
  | live q =>
    have hstep : s.step .close = ⟨s.bus.unsubscribeLive q, s.gen.suspend .finished []⟩ := by
      simp [step, SseGenerator.close, hphase]
    rw [hstep]
    refine ⟨⟨hholds.unsubscribeLive q, hlimit, trivial⟩, ?_, trivial⟩
    simp [taken, backlog]

/-- The spec of a step that publishes nothing on the topic during the replay. -/
theorem Carries.step (h : Carries topic published s) {move : StreamMove π}
    (hroom : s.HasRoom move) (hquiet : s.QuietReplay topic move) :
    Carries topic (fun t => published t ++ move.payloads t) (s.step move) ∧
      Effect s (s.step move) (published topic) (published topic ++ move.payloads topic) := by
  cases move with
  | publish name payload => exact h.publish hroom hquiet
  | resume timedOut =>
    obtain ⟨hcarries, htaken, hdone⟩ := h.resume timedOut
    simp only [StreamMove.payloads, List.append_nil]
    exact ⟨hcarries, .kept rfl htaken hdone⟩
  | close =>
    obtain ⟨hcarries, htaken, hdone⟩ := h.close
    simp only [StreamMove.payloads, List.append_nil]
    exact ⟨hcarries, .over List.prefix_rfl htaken hdone⟩

/-! ## The first step -/

theorem firstBackfilled_eq {bus : EventBus π} (h : bus.Holds published) (backfill : ℕ) :
    firstBackfilled bus topic backfill =
      max ((published topic).length - backfill) ((published topic).length - bus.maxlen) := by
  rw [firstBackfilled, h.seq, h.buffers, RetainedLog.length_retained]
  omega

/-- Connecting takes on the newest buffered events. -/
theorem carries_connect {bus : EventBus π} (h : bus.Holds published) {backfill : ℕ}
    (hb : 0 < backfill) :
    Carries topic published (connect bus topic backfill) ∧
      (connect bus topic backfill).taken =
        (RetainedLog.numbered (published topic)).drop (firstBackfilled bus topic backfill) ∧
      ¬ (connect bus topic backfill).Done := by
  let gen : SseGenerator π := .new [topic.name] none backfill
  let entries := (RetainedLog.numbered (published topic)).drop
    (firstBackfilled bus topic backfill)
  have hread : RetainedLog.read bus.maxlen (published topic)
      ((published topic).length - backfill) (max 1 backfill) = entries := by
    rw [RetainedLog.read, ← firstBackfilled_eq h]
    apply List.take_of_length_le
    rw [List.length_drop, RetainedLog.length_numbered, firstBackfilled_eq h]
    omega
  have hstep : connect bus topic backfill =
      ⟨(gen.replayLoop bus false [] (entries.map fun e => ⟨e.1, topic.name, e.2⟩)).1,
        (gen.replayLoop bus false [] (entries.map fun e => ⟨e.1, topic.name, e.2⟩)).2⟩ := by
    have hnext : bus.nextOffset topic.name = (published topic).length := by
      simp [EventBus.nextOffset, h.seq]
    have hconsume := h.consume topic ((published topic).length - backfill) backfill
    rw [hread] at hconsume
    simp only [connect, step, SseGenerator.resume, SseGenerator.new, hb, if_true,
      SseGenerator.replayLoop, hnext, hconsume, gen]
  have hempty : gen.emitted = [] := rfl
  rw [hstep]
  show _ ∧ _ = entries ∧ _
  cases hentries : entries with
  | nil =>
    have hunlimited : gen.limit = none := rfl
    have hsubscribe := carries_subscribe hunlimited rfl h false
    rw [hempty] at hsubscribe
    exact hsubscribe
  | cons e rest =>
    refine ⟨⟨h, rfl, rfl, rfl⟩, ?_, id⟩
    have hrest : (rest.map fun e => (⟨e.1, topic.name, e.2⟩ : StreamEvent π)).map
        StreamEvent.entry = rest := by
      rw [List.map_map]
      exact List.map_id _
    simp [SseGenerator.replayLoop, taken, backlog, hempty, hrest, SseChunk.entry]

/-! ## Runs -/

/-- The stream has taken on every event from `first` on, until it is over. -/
structure Complete (topic : Topic) (first : ℕ) (published : Topic → List π) (s : Streaming π) :
    Prop where
  carries : Carries topic published s
  first_le : first ≤ (published topic).length
  taken : s.taken <+: (RetainedLog.numbered (published topic)).drop first
  whole : ¬ s.Done → s.taken = (RetainedLog.numbered (published topic)).drop first

theorem numbered_mono {items items' : List π} (h : items <+: items') :
    RetainedLog.numbered items <+: RetainedLog.numbered items' := by
  obtain ⟨rest, rfl⟩ := h
  induction rest using List.reverseRecOn with
  | nil => rw [List.append_nil]
  | append_singleton rest x ih =>
    rw [← List.append_assoc, RetainedLog.numbered_concat]
    exact ih.trans (List.prefix_append _ _)

/-- The log grows by what a step publishes. -/
theorem Complete.append {first : ℕ} (h : Complete topic first published s) {move : StreamMove π}
    (hroom : s.HasRoom move) (hquiet : s.QuietReplay topic move) :
    Complete topic first (fun t => published t ++ move.payloads t) (s.step move) := by
  obtain ⟨hcarries, hfirst, htaken, hwhole⟩ := h
  obtain ⟨hcarries', heffect⟩ := hcarries.step hroom hquiet
  rcases heffect with ⟨hitems, hsame, hdone⟩ | ⟨payload, hitems, hmore, hdone, hdone'⟩ |
    ⟨hitems, hless, hdone⟩
  · refine ⟨hcarries', by rw [hitems]; exact hfirst, ?_, ?_⟩
    · rw [hitems, hsame]
      exact htaken
    · intro hnot
      rw [hitems, hsame]
      exact hwhole fun h => hnot (hdone.mpr h)
  · have hnew : (s.step move).taken =
        (RetainedLog.numbered (published topic ++ move.payloads topic)).drop first := by
      rw [hmore, hwhole hdone, hitems, RetainedLog.numbered_concat,
        List.drop_append_of_le_length (by rw [RetainedLog.length_numbered]; exact hfirst)]
    refine ⟨hcarries', ?_, by rw [hnew], fun _ => hnew⟩
    rw [hitems, List.length_append]
    omega
  · refine ⟨hcarries', hfirst.trans hitems.length_le, ?_, fun hnot => absurd hdone hnot⟩
    exact hless.trans (htaken.trans ((numbered_mono hitems).drop first))

theorem Complete.step {first : ℕ} (h : Complete topic first published s) {move : StreamMove π}
    (hroom : s.HasRoom move) (hquiet : s.QuietReplay topic move) :
    ∃ published', Complete topic first published' (s.step move) :=
  ⟨_, h.append hroom hquiet⟩

theorem Idle.backlog (h : s.Idle) : s.backlog = [] ∧ ¬ s.Done := by
  obtain ⟨q, hq, hwaiting⟩ := h
  cases hphase : s.gen.phase with
  | live q' =>
    obtain rfl : q' = q := by simpa [hphase, SsePhase.queue] using hq
    exact ⟨by simpa [Streaming.backlog, hphase] using hwaiting, by simp [Done, hphase]⟩
  | created => simp [hphase, SsePhase.queue] at hq
  | replay events topics => simp [hphase, SsePhase.queue] at hq
  | finished => simp [hphase, SsePhase.queue] at hq
  | raised e => simp [hphase, SsePhase.queue] at hq

theorem Complete.gapFree {first : ℕ} (h : Complete topic first published s) :
    s.GapFree topic first := by
  have hnumbers : ((RetainedLog.numbered (published topic)).drop first).map Prod.fst =
      List.range' first ((published topic).length - first) := by
    rw [List.map_drop, RetainedLog.map_fst_numbered, List.drop_range']
    simp
  have hpre : s.sent <+: List.range' first ((published topic).length - first) := by
    rw [← hnumbers]
    exact ((List.prefix_append s.gen.emitted s.backlog).trans h.taken).map Prod.fst
  constructor
  · have hlen := hpre.length_le
    rw [List.length_range'] at hlen
    have htake := List.prefix_iff_eq_take.mp hpre
    rw [List.take_range'_of_length_ge hlen] at htake
    exact htake
  · intro hidle
    obtain ⟨hbacklog, hdone⟩ := hidle.backlog
    have hwhole := congrArg List.length (h.whole hdone)
    rw [Streaming.taken, hbacklog, List.append_nil, List.length_drop,
      RetainedLog.length_numbered] at hwhole
    rw [sent, List.length_map, hwhole, h.carries.holds.seq]
    have hfirst := h.first_le
    omega

/-- At least so many events of the topic have passed the stream by. -/
def Lags (topic : Topic) (first missed : ℕ) (published : Topic → List π) (s : Streaming π) : Prop :=
  ¬ s.Done → first + s.taken.length + missed ≤ (published topic).length

/-- A missed event stays missed, and each publish during the replay adds one. -/
theorem Carries.lags (h : Carries topic published s) {move : StreamMove π}
    (hroom : s.HasRoom move) {first missed : ℕ} (hlags : s.Lags topic first missed published) :
    ∃ published', Carries topic published' (s.step move) ∧
      (s.step move).Lags topic first
        (if s.QuietReplay topic move then missed else missed + 1) published' := by
  by_cases hquiet : s.QuietReplay topic move
  · obtain ⟨hcarries, heffect⟩ := h.step hroom hquiet
    refine ⟨_, hcarries, fun hnot => ?_⟩
    rw [if_pos hquiet]
    rcases heffect with ⟨hitems, hsame, hdone⟩ | ⟨payload, hitems, hmore, hdone, -⟩ | ⟨-, -, hdone⟩
    · have hold := hlags fun h => hnot (hdone.mpr h)
      rw [hsame, hitems]
      exact hold
    · have hold := hlags hdone
      rw [hmore, hitems, List.length_append, List.length_append, List.length_singleton,
        List.length_singleton]
      omega
    · exact absurd hdone hnot
  · obtain ⟨published', payload, hcarries, hitems, hsame, hdone, -⟩ := h.missed hquiet
    refine ⟨published', hcarries, fun _ => ?_⟩
    have hold := hlags hdone
    rw [if_neg hquiet, hsame, hitems, List.length_append, List.length_singleton]
    omega

theorem Carries.lags_run (h : Carries topic published s) {moves : List (StreamMove π)}
    (hroom : StepsMeet Streaming.step HasRoom s moves) {first missed : ℕ}
    (hlags : s.Lags topic first missed published) :
    ∃ published', Carries topic published' (moves.foldl Streaming.step s) ∧
      (moves.foldl Streaming.step s).Lags topic first missed published' := by
  induction moves generalizing s published with
  | nil => exact ⟨published, h, hlags⟩
  | cons move moves ih =>
    obtain ⟨published', hcarries, hlags'⟩ := h.lags hroom.1 hlags
    apply ih hcarries hroom.2
    intro hnot
    have hnew := hlags' hnot
    split at hnew
    · exact hnew
    · omega

/-- A stream that is idle without a gap has missed nothing. -/
theorem Carries.quiet_of_gapFree (h : Carries topic published s) {moves : List (StreamMove π)}
    (hroom : StepsMeet Streaming.step HasRoom s moves) {first : ℕ}
    (hlags : s.Lags topic first 0 published)
    (hidle : (moves.foldl Streaming.step s).Idle)
    (hgap : (moves.foldl Streaming.step s).GapFree topic first) :
    StepsMeet Streaming.step (QuietReplay topic) s moves := by
  induction moves generalizing s published with
  | nil => trivial
  | cons move moves ih =>
    obtain ⟨published', hcarries, hlags'⟩ := h.lags hroom.1 hlags
    have hquiet : s.QuietReplay topic move := by
      by_contra hmissed
      rw [if_neg hmissed] at hlags'
      obtain ⟨published'', hend, hbehind⟩ := hcarries.lags_run hroom.2 hlags'
      obtain ⟨hbacklog, hdone⟩ := hidle.backlog
      have hreached := hgap.2 hidle
      have hshort := hbehind hdone
      rw [List.foldl_cons] at hreached hbacklog
      rw [hend.holds.seq, sent, List.length_map] at hreached
      rw [taken, hbacklog, List.append_nil] at hshort
      omega
    rw [if_pos hquiet] at hlags'
    exact ⟨hquiet, ih hcarries hroom.2 hlags' hidle hgap⟩

/-- A stream that never overflows its queue is free of gaps in every state of a run that
publishes nothing on its topic during the replay, and when a run ends idle without a gap
it was such a run. -/
theorem gapFree_iff (maxlen : ℕ) (past : List (BusMove π)) (topic : Topic) {backfill : ℕ}
    (hb : 0 < backfill) (moves : List (StreamMove π))
    (hroom : StepsMeet step HasRoom
      (connect (past.foldl EventBus.apply (.new π maxlen)) topic backfill) moves) :
    let bus := past.foldl EventBus.apply (.new π maxlen)
    let s := connect bus topic backfill
    let first := firstBackfilled bus topic backfill
    (StepsMeet step (QuietReplay topic) s moves → Throughout step (GapFree topic first) s moves) ∧
    ((moves.foldl step s).Idle → GapFree topic first (moves.foldl step s) →
      StepsMeet step (QuietReplay topic) s moves) := by
  intro bus s first
  obtain ⟨published, hholds⟩ : ∃ published, bus.Holds published :=
    EventBus.exists_holds maxlen past
  obtain ⟨hcarries, htaken, hdone⟩ := carries_connect hholds hb
  have hfirst : first ≤ (published topic).length := by
    simp only [first, firstBackfilled, hholds.seq]
    omega
  constructor
  · intro hquiet
    have hcomplete : ∃ published, Complete topic first published s :=
      ⟨published, hcarries, hfirst, by rw [htaken], fun _ => htaken⟩
    have hall : Throughout step (fun s => ∃ published, Complete topic first published s) s moves :=
      Throughout.of_stepsMeet (fun _ _ ⟨_, h⟩ hok => h.step hok.1 hok.2) hcomplete
        (hroom.and hquiet)
    exact hall.mono fun _ ⟨_, h⟩ => h.gapFree
  · intro hidle hgap
    apply hcarries.quiet_of_gapFree hroom _ hidle hgap
    intro _
    rw [htaken, List.length_drop, RetainedLog.length_numbered]
    omega

/-- One event in the buffer, one published while it is sent, one after the subscription. -/
def missedMoves : List (StreamMove ℕ) :=
  [.publish "transactions" 8, .resume false, .publish "transactions" 9, .resume false]

/-- The same without the publish during the replay. -/
theorem quiet_replay_complete :
    Throughout step (GapFree .transactions 0)
      (connect ((EventBus.new ℕ 10).apply (.publish "transactions" 7)) .transactions 1)
      [.resume false, .publish "transactions" 8, .resume false] :=
  (gapFree_iff 10 [.publish "transactions" 7] .transactions (by decide)
    [.resume false, .publish "transactions" 8, .resume false] (by decide +kernel)).1
    (by decide +kernel)

/-- The event published during the replay is lost although the queue never fills up. -/
theorem replay_misses_event :
    StepsMeet step HasRoom
      (connect ((EventBus.new ℕ 10).apply (.publish "transactions" 7)) .transactions 1)
      missedMoves ∧
    (missedMoves.foldl step
      (connect ((EventBus.new ℕ 10).apply (.publish "transactions" 7)) .transactions 1)).sent =
        [0, 2] ∧
    ¬ Throughout step (GapFree .transactions 0)
      (connect ((EventBus.new ℕ 10).apply (.publish "transactions" 7)) .transactions 1)
      missedMoves := by
  decide +kernel

end Streaming
end ECN
