import ECN.RetainedLog
import ECN.Tenant

/-!
# Event streaming

A bus keeps one numbered ring buffer for each topic. A consumer either polls a topic by
offset or follows it live: the stream generator replays a snapshot of the buffer,
suspending at every event, and only then subscribes a queue.
-/
namespace ECN

variable {π : Type*}

/-! ## The bus -/

def Topic.name : Topic → String
  | .transactions => "transactions"
  | .faults => "faults"

/-- `ALL_TOPICS`. -/
def Topic.all : List Topic := [.transactions, .faults]

/-- The topic of this name, when there is one. -/
def Topic.ofName (name : String) : Option Topic := Topic.all.find? fun t => t.name = name

@[simp] theorem Topic.ofName_name (t : Topic) : Topic.ofName t.name = some t := by
  cases t <;> rfl

/-- `asyncio.Queue`; without a size it is unbounded. -/
structure Queue (β : Type*) where
  maxsize : ℕ
  items : List β

def Queue.full {β : Type*} (q : Queue β) : Bool := 0 < q.maxsize ∧ q.maxsize ≤ q.items.length

/-- `put_nowait`, which raises `QueueFull` when there is no room. -/
def Queue.putNowait {β : Type*} (q : Queue β) (item : β) : Option (Queue β) :=
  if q.full then none else some { q with items := q.items ++ [item] }

/-- A queue with no room drops what it is offered. -/
def Queue.offer {β : Type*} (item : β) (q : Queue β) : Queue β := (q.putNowait item).getD q

theorem Queue.items_offer {β : Type*} (item : β) {q : Queue β} (h : q.full = false) :
    (q.offer item).items = q.items ++ [item] := by
  simp [offer, putNowait, h]

/-- The queues created so far stand in `queues`; a subscriber is named by its position there. -/
structure EventBus (π : Type*) where
  maxlen : ℕ
  buffers : Topic → List (ℕ × π)
  seq : Topic → ℕ
  subscribers : Topic → List ℕ
  queues : List (Queue (ℕ × π))

/-- An item that `consume` returns. -/
structure StreamEvent (π : Type*) where
  seq : ℕ
  topic : String
  payload : π

def StreamEvent.entry (event : StreamEvent π) : ℕ × π := (event.seq, event.payload)

/-- Offer an item to every subscriber in turn. -/
def fanOut (item : ℕ × π) (queues : List (Queue (ℕ × π))) (subscribers : List ℕ) :
    List (Queue (ℕ × π)) :=
  subscribers.foldl (fun queues q => queues.modify q (Queue.offer item)) queues

@[simp] theorem length_fanOut (item : ℕ × π) (queues : List (Queue (ℕ × π)))
    (subscribers : List ℕ) : (fanOut item queues subscribers).length = queues.length := by
  induction subscribers generalizing queues with
  | nil => rfl
  | cons q subscribers ih =>
    have hrest := ih (queues.modify q (Queue.offer item))
    simpa [fanOut] using hrest

/-- A queue is offered the item once for each time that it is subscribed. -/
theorem getElem?_fanOut (item : ℕ × π) (queues : List (Queue (ℕ × π))) (subscribers : List ℕ)
    (q : ℕ) : (fanOut item queues subscribers)[q]? =
      queues[q]?.map (Queue.offer item)^[subscribers.count q] := by
  induction subscribers generalizing queues with
  | nil => simp [fanOut]
  | cons first subscribers ih =>
    have hrest := ih (queues.modify first (Queue.offer item))
    have hstep : fanOut item queues (first :: subscribers) =
        fanOut item (queues.modify first (Queue.offer item)) subscribers := rfl
    rw [hstep, hrest, List.getElem?_modify, List.count_cons]
    by_cases h : first = q
    · subst h
      cases queues[first]? <;> simp
    · cases queues[q]? <;> simp [h]

/-- The loop of `consume`. -/
def consumeLoop (topic : String) (offset limit : ℕ) :
    List (ℕ × π) → List (StreamEvent π) → List (StreamEvent π)
  | [], results => results
  | (seq, payload) :: buf, results =>
    if seq < offset then consumeLoop topic offset limit buf results
    else
      let results := results ++ [⟨seq, topic, payload⟩]
      if limit ≤ results.length then results else consumeLoop topic offset limit buf results

def addSubscriber (q : ℕ) (subscribers : Topic → List ℕ) (t : Topic) : Topic → List ℕ :=
  Function.update subscribers t (subscribers t ++ [q])

theorem foldl_addSubscriber (q : ℕ) (names : List Topic) (subscribers : Topic → List ℕ)
    (t : Topic) : names.foldl (addSubscriber q) subscribers t =
      subscribers t ++ List.replicate (names.count t) q := by
  induction names generalizing subscribers with
  | nil => simp
  | cons first names ih =>
    rw [List.foldl_cons, ih, List.count_cons, addSubscriber]
    by_cases h : t = first
    · subst h
      simp [List.replicate_succ]
    · have hne : first ≠ t := Ne.symm h
      simp [h, hne]

theorem consumeLoop_eq (topic : String) {offset limit : ℕ} (buf : List (ℕ × π))
    {results : List (StreamEvent π)} (h : results.length < max 1 limit) :
    consumeLoop topic offset limit buf results = results ++
      ((buf.filter fun e => decide (offset ≤ e.1)).take (max 1 limit - results.length)).map
        fun e => ⟨e.1, topic, e.2⟩ := by
  induction buf generalizing results with
  | nil => simp [consumeLoop]
  | cons e buf ih =>
    obtain ⟨seq, payload⟩ := e
    rw [consumeLoop]
    by_cases hseq : seq < offset
    · rw [if_pos hseq, ih h, List.filter_cons_of_neg (by simpa using hseq)]
    · rw [if_neg hseq, List.filter_cons_of_pos (by simpa using hseq)]
      obtain ⟨room, hroom⟩ : ∃ room, max 1 limit - results.length = room + 1 :=
        ⟨max 1 limit - results.length - 1, by omega⟩
      rw [hroom, List.take_succ_cons, List.map_cons]
      dsimp only
      split
      · next hfull =>
        have hzero : room = 0 := by
          rw [List.length_append, List.length_singleton] at hfull
          omega
        simp [hzero]
      · next hmore =>
        rw [List.length_append, List.length_singleton] at hmore
        have hlen : (results ++ [(⟨seq, topic, payload⟩ : StreamEvent π)]).length =
            results.length + 1 := by simp
        rw [ih (by rw [hlen]; omega), hlen, List.append_assoc, List.singleton_append]
        congr 4
        omega

namespace EventBus

def new (π : Type*) (maxlen : ℕ) : EventBus π where
  maxlen := maxlen
  buffers := fun _ => []
  seq := fun _ => 0
  subscribers := fun _ => []
  queues := []

/-- The text of the `ValueError`. -/
def unknownTopic (topic : String) : String := "Unknown topic: " ++ reprText topic

/-- Number the payload, keep it in the ring buffer and offer it to the subscribers. -/
def publish (bus : EventBus π) (topic : String) (payload : π) : Except String (EventBus π × ℕ) :=
  match Topic.ofName topic with
  | none => .error (unknownTopic topic)
  | some t =>
    let seq := bus.seq t
    .ok ({ bus with
      buffers := Function.update bus.buffers t
        (RetainedLog.push bus.maxlen (bus.buffers t) (seq, payload))
      seq := Function.update bus.seq t (seq + 1)
      queues := fanOut (seq, payload) bus.queues (bus.subscribers t) }, seq)

def consume (bus : EventBus π) (topic : String) (offset limit : ℕ) :
    Except String (List (StreamEvent π)) :=
  match Topic.ofName topic with
  | none => .error (unknownTopic topic)
  | some t => .ok (consumeLoop topic offset limit (bus.buffers t) [])

/-- The next sequence number of a topic, 0 for an unknown one. -/
def nextOffset (bus : EventBus π) (topic : String) : ℕ := ((Topic.ofName topic).map bus.seq).getD 0

/-- Create a queue and add it once for each name that is a topic. -/
def subscribeLive (bus : EventBus π) (topics : List String) (maxsize : ℕ) : EventBus π × ℕ :=
  let q := bus.queues.length
  ({ bus with
    subscribers := (topics.filterMap Topic.ofName).foldl (addSubscriber q) bus.subscribers
    queues := bus.queues ++ [⟨maxsize, []⟩] }, q)

/-- Remove the first entry of a queue from every topic. -/
def unsubscribeLive (bus : EventBus π) (q : ℕ) : EventBus π :=
  { bus with subscribers := fun t => (bus.subscribers t).erase q }

/-- What waits in a queue. -/
def waiting (bus : EventBus π) (q : ℕ) : List (ℕ × π) := (bus.queues[q]?.map Queue.items).getD []

/-- Take the next item from a queue. -/
def get (bus : EventBus π) (q : ℕ) : Option ((ℕ × π) × EventBus π) :=
  match bus.waiting q with
  | [] => none
  | item :: items =>
    some (item, { bus with queues := bus.queues.modify q fun queue => { queue with items } })

/-! ### What the operations do -/

theorem publish_name (bus : EventBus π) (t : Topic) (payload : π) :
    bus.publish t.name payload = .ok ({ bus with
      buffers := Function.update bus.buffers t
        (RetainedLog.push bus.maxlen (bus.buffers t) (bus.seq t, payload))
      seq := Function.update bus.seq t (bus.seq t + 1)
      queues := fanOut (bus.seq t, payload) bus.queues (bus.subscribers t) }, bus.seq t) := by
  simp [publish]

theorem consume_name (bus : EventBus π) (t : Topic) (offset limit : ℕ) :
    bus.consume t.name offset limit =
      .ok ((((bus.buffers t).filter fun e => decide (offset ≤ e.1)).take (max 1 limit)).map
        fun e => ⟨e.1, t.name, e.2⟩) := by
  rw [consume, Topic.ofName_name]
  dsimp only
  rw [consumeLoop_eq t.name (bus.buffers t) (by simp)]
  simp

theorem subscribers_subscribeLive (bus : EventBus π) (topics : List String) (maxsize : ℕ)
    (t : Topic) : (bus.subscribeLive topics maxsize).1.subscribers t = bus.subscribers t ++
      List.replicate ((topics.filterMap Topic.ofName).count t) bus.queues.length :=
  foldl_addSubscriber _ _ _ t

theorem get_eq_none {bus : EventBus π} {q : ℕ} (h : bus.waiting q = []) : bus.get q = none := by
  rw [get, h]

theorem get_eq_some {bus : EventBus π} {q : ℕ} {item : ℕ × π} {items : List (ℕ × π)}
    (h : bus.waiting q = item :: items) : bus.get q =
      some (item, { bus with queues := bus.queues.modify q fun queue => { queue with items } }) := by
  rw [get, h]

end EventBus

/-! ### Waiting items -/

namespace EventBus

theorem waiting_of_modify (bus : EventBus π) (items : List (ℕ × π)) {q : ℕ}
    (h : q < bus.queues.length) :
    ({ bus with queues := bus.queues.modify q fun queue => { queue with items } } :
      EventBus π).waiting q = items := by
  simp [waiting, List.getElem?_eq_getElem h]

theorem waiting_subscribeLive (bus : EventBus π) (topics : List String) (maxsize : ℕ) :
    (bus.subscribeLive topics maxsize).1.waiting bus.queues.length = [] := by
  simp [waiting, subscribeLive]

/-- A queue that is subscribed once and has room receives what is published. -/
theorem waiting_fanOut {bus after : EventBus π} {item : ℕ × π} {subscribers : List ℕ} {q : ℕ}
    (hqueues : after.queues = fanOut item bus.queues subscribers) (hq : q < bus.queues.length)
    (hcount : subscribers.count q = 1) (hroom : ∀ queue ∈ bus.queues[q]?, queue.full = false) :
    after.waiting q = bus.waiting q ++ [item] := by
  have hget := List.getElem?_eq_getElem hq
  have hfull := hroom _ hget
  rw [waiting, hqueues, getElem?_fanOut, hcount, waiting, hget]
  simp [Queue.items_offer item hfull]

theorem waiting_fanOut_of_notMem {bus after : EventBus π} {item : ℕ × π} {subscribers : List ℕ}
    {q : ℕ} (hqueues : after.queues = fanOut item bus.queues subscribers)
    (hcount : subscribers.count q = 0) : after.waiting q = bus.waiting q := by
  rw [waiting, hqueues, getElem?_fanOut, hcount, waiting]
  simp

end EventBus

/-! ## Runs of the bus -/

/-- A call by any user of the bus. -/
inductive BusMove (π : Type*) where
  | publish (topic : String) (payload : π)
  | subscribe (topics : List String) (maxsize : ℕ)
  | unsubscribe (q : ℕ)
  | get (q : ℕ)

/-- The payloads that a call publishes on a topic. -/
def BusMove.payloads (t : Topic) : BusMove π → List π
  | .publish topic payload => if Topic.ofName topic = some t then [payload] else []
  | _ => []

namespace EventBus

def apply (bus : EventBus π) : BusMove π → EventBus π
  | .publish topic payload =>
    match bus.publish topic payload with
    | .error _ => bus
    | .ok (bus, _) => bus
  | .subscribe topics maxsize => (bus.subscribeLive topics maxsize).1
  | .unsubscribe q => bus.unsubscribeLive q
  | .get q =>
    match bus.get q with
    | none => bus
    | some (_, bus) => bus

/-- Each topic has numbered what was published on it and retains its tail, and the
subscribers are queues that exist. -/
structure Holds (bus : EventBus π) (published : Topic → List π) : Prop where
  seq : ∀ t, bus.seq t = (published t).length
  buffers : ∀ t, bus.buffers t = RetainedLog.retained bus.maxlen (published t)
  subscribers : ∀ t, ∀ q ∈ bus.subscribers t, q < bus.queues.length

theorem holds_new (maxlen : ℕ) : (new π maxlen).Holds fun _ => [] where
  seq _ := rfl
  buffers _ := (RetainedLog.retained_nil maxlen).symm
  subscribers _ q hq := by cases hq

variable {bus : EventBus π} {published : Topic → List π}

theorem Holds.publish (h : bus.Holds published) (t : Topic) (payload : π) :
    ∃ after, bus.apply (.publish t.name payload) = after ∧ after.maxlen = bus.maxlen ∧
      after.subscribers = bus.subscribers ∧
      after.queues = fanOut ((published t).length, payload) bus.queues (bus.subscribers t) ∧
      after.Holds (Function.update published t (published t ++ [payload])) := by
  refine ⟨_, rfl, ?_⟩
  rw [apply, publish_name]
  refine ⟨rfl, rfl, by rw [← h.seq], ?_, ?_, ?_⟩
  · intro t'
    by_cases ht : t' = t
    · subst ht
      simp [h.seq]
    · simp [ht, h.seq]
  · intro t'
    by_cases ht : t' = t
    · subst ht
      simp only [Function.update_self]
      rw [h.buffers, h.seq, RetainedLog.push_retained]
    · simp only [Function.update_of_ne ht]
      exact h.buffers t'
  · intro t' q hq
    rw [length_fanOut]
    exact h.subscribers t' q hq

theorem Holds.subscribeLive (h : bus.Holds published) (topics : List String) (maxsize : ℕ) :
    (bus.subscribeLive topics maxsize).1.Holds published where
  seq := h.seq
  buffers := h.buffers
  subscribers t q hq := by
    have hlen : (bus.subscribeLive topics maxsize).1.queues.length = bus.queues.length + 1 := by
      simp [EventBus.subscribeLive]
    rw [subscribers_subscribeLive, List.mem_append] at hq
    rcases hq with hq | hq
    · have hold := h.subscribers t q hq
      omega
    · have hnew := List.eq_of_mem_replicate hq
      omega

theorem Holds.unsubscribeLive (h : bus.Holds published) (q : ℕ) :
    (bus.unsubscribeLive q).Holds published where
  seq := h.seq
  buffers := h.buffers
  subscribers t q' hq' := h.subscribers t q' (List.mem_of_mem_erase hq')

theorem Holds.modify (h : bus.Holds published) (q : ℕ)
    (f : Queue (ℕ × π) → Queue (ℕ × π)) :
    ({ bus with queues := bus.queues.modify q f } : EventBus π).Holds published where
  seq := h.seq
  buffers := h.buffers
  subscribers t q' hq' := by
    rw [List.length_modify]
    exact h.subscribers t q' hq'

theorem apply_publish_unknown (bus : EventBus π) {topic : String} (h : Topic.ofName topic = none)
    (payload : π) : bus.apply (.publish topic payload) = bus := by
  simp [apply, EventBus.publish, h]

theorem name_of_ofName {topic : String} {t : Topic} (h : Topic.ofName topic = some t) :
    topic = t.name := by
  have hfind := List.find?_some h
  exact (of_decide_eq_true hfind).symm

/-- Whatever a call does, the bus holds what was published. -/
theorem Holds.apply (h : bus.Holds published) (move : BusMove π) :
    (bus.apply move).maxlen = bus.maxlen ∧
      (bus.apply move).Holds fun t => published t ++ move.payloads t := by
  have hsame : (fun t => published t ++ []) = published := by
    funext t
    rw [List.append_nil]
  cases move with
  | publish topic payload =>
    cases ht : Topic.ofName topic with
    | none =>
      rw [apply_publish_unknown bus ht]
      simpa [BusMove.payloads, ht] using h
    | some t =>
      obtain rfl := name_of_ofName ht
      obtain ⟨after, hafter, hmax, -, -, hholds⟩ := h.publish t payload
      have hpublished : (fun t' => published t' ++
          (BusMove.publish t.name payload).payloads t') =
            Function.update published t (published t ++ [payload]) := by
        funext t'
        by_cases heq : t' = t
        · subst heq
          simp [BusMove.payloads]
        · have hne : t ≠ t' := Ne.symm heq
          simp [BusMove.payloads, heq, hne]
      rw [hafter, hpublished]
      exact ⟨hmax, hholds⟩
  | subscribe topics maxsize =>
    refine ⟨rfl, ?_⟩
    simp only [BusMove.payloads, hsame]
    exact h.subscribeLive topics maxsize
  | unsubscribe q =>
    refine ⟨rfl, ?_⟩
    simp only [BusMove.payloads, hsame]
    exact h.unsubscribeLive q
  | get q =>
    simp only [BusMove.payloads, hsame]
    cases hq : bus.waiting q with
    | nil =>
      rw [EventBus.apply, get_eq_none hq]
      exact ⟨rfl, h⟩
    | cons item items =>
      rw [EventBus.apply, get_eq_some hq]
      exact ⟨rfl, h.modify q _⟩

theorem exists_holds (maxlen : ℕ) (moves : List (BusMove π)) :
    ∃ published, (moves.foldl apply (new π maxlen)).Holds published := by
  induction moves using List.reverseRecOn with
  | nil => exact ⟨_, holds_new maxlen⟩
  | append_singleton moves move ih =>
    obtain ⟨published, h⟩ := ih
    rw [List.foldl_append]
    exact ⟨_, (h.apply move).2⟩

/-- What a poll of a topic reads. -/
theorem Holds.consume (h : bus.Holds published) (t : Topic) (offset limit : ℕ) :
    bus.consume t.name offset limit =
      .ok ((RetainedLog.read bus.maxlen (published t) offset (max 1 limit)).map
        fun e => ⟨e.1, t.name, e.2⟩) := by
  rw [consume_name, h.buffers, RetainedLog.retained, RetainedLog.filter_numbered]
  rfl

end EventBus

/-! ## Polling -/

structure PollResponse (π : Type*) where
  topic : String
  offset : ℕ
  count : ℕ
  nextOffset : ℕ
  events : List (StreamEvent π)

def requireEventBus (bus : Option (EventBus π)) : Except HttpError (EventBus π) :=
  match bus with
  | none => .error ⟨503, "Event bus not initialised"⟩
  | some bus => .ok bus

/-- `GET /stream/topics/{topic}`. -/
def pollTopic (bus : Option (EventBus π)) (topic : String) (offset limit : ℕ) :
    Except HttpError (PollResponse π) := do
  let bus ← requireEventBus bus
  match bus.consume topic offset limit with
  | .error e => .error ⟨404, e⟩
  | .ok events =>
    return {
      topic
      offset
      count := events.length
      nextOffset := (events.getLast?.map fun event => event.seq + 1).getD offset
      events }

/-! ## The stream generator -/

/-- What the generator yields. -/
inductive SseChunk (π : Type*) where
  | data (seq : ℕ) (payload : π)
  | heartbeat

/-- Where the generator is suspended: before its first step, at a backfilled event with
the rest of the snapshot and of the topics ahead, or in the live loop. -/
inductive SsePhase (π : Type*) where
  | created
  | replay (events : List (StreamEvent π)) (topics : List String)
  | live (q : ℕ)
  | finished
  | raised (e : String)

/-- The queue of the live loop. -/
def SsePhase.queue : SsePhase π → Option ℕ
  | .live q => some q
  | _ => none

/-- Suspended at a backfilled event. -/
def SsePhase.replaying : SsePhase π → Bool
  | .replay _ _ => true
  | _ => false

structure SseGenerator (π : Type*) where
  topics : List String
  limit : Option ℕ
  backfill : ℕ
  phase : SsePhase π
  yielded : List (SseChunk π)

def SseChunk.entry : SseChunk π → Option (ℕ × π)
  | .data seq payload => some (seq, payload)
  | .heartbeat => none

namespace SseGenerator

/-- `sse_generator`; nothing runs before the first step. -/
def new (topics : List String) (limit : Option ℕ) (backfill : ℕ) : SseGenerator π :=
  ⟨topics, limit, backfill, .created, []⟩

/-- The events yielded so far. -/
def emitted (gen : SseGenerator π) : List (ℕ × π) := gen.yielded.filterMap SseChunk.entry

/-- `limit is not None and emitted >= limit`. -/
def limitReached (gen : SseGenerator π) : Bool :=
  match gen.limit with
  | none => false
  | some limit => limit ≤ gen.emitted.length

/-- Suspend in a phase after yielding some chunks. -/
def suspend (gen : SseGenerator π) (phase : SsePhase π) (chunks : List (SseChunk π)) :
    SseGenerator π :=
  { gen with phase, yielded := gen.yielded ++ chunks }

@[simp] theorem suspend_phase (gen : SseGenerator π) (phase : SsePhase π)
    (chunks : List (SseChunk π)) : (gen.suspend phase chunks).phase = phase := rfl

@[simp] theorem suspend_limit (gen : SseGenerator π) (phase : SsePhase π)
    (chunks : List (SseChunk π)) : (gen.suspend phase chunks).limit = gen.limit := rfl

@[simp] theorem suspend_topics (gen : SseGenerator π) (phase : SsePhase π)
    (chunks : List (SseChunk π)) : (gen.suspend phase chunks).topics = gen.topics := rfl

@[simp] theorem emitted_suspend (gen : SseGenerator π) (phase : SsePhase π)
    (chunks : List (SseChunk π)) :
    (gen.suspend phase chunks).emitted = gen.emitted ++ chunks.filterMap SseChunk.entry :=
  List.filterMap_append

/-- The live loop up to its next suspension. `timedOut` says that an empty queue stays
empty for the time of a heartbeat. -/
def liveLoop (gen : SseGenerator π) (bus : EventBus π) (timedOut : Bool) (q : ℕ) :
    EventBus π × SseGenerator π :=
  if gen.limitReached then (bus.unsubscribeLive q, gen.suspend .finished [])
  else
    match bus.get q with
    | some ((seq, payload), bus) => (bus, gen.suspend (.live q) [.data seq payload])
    | none => (bus, gen.suspend (.live q) (if timedOut then [.heartbeat] else []))

/-- The replay up to its next suspension, with the subscription after the last topic. -/
def replayLoop (gen : SseGenerator π) (bus : EventBus π) (timedOut : Bool) :
    List String → List (StreamEvent π) → EventBus π × SseGenerator π
  | topics, event :: events =>
    (bus, gen.suspend (.replay events topics) [.data event.seq event.payload])
  | topic :: topics, [] =>
    match bus.consume topic (bus.nextOffset topic - gen.backfill) gen.backfill with
    | .error e => (bus, gen.suspend (.raised e) [])
    | .ok events => gen.replayLoop bus timedOut topics events
  | [], [] =>
    let (bus, q) := bus.subscribeLive gen.topics 256
    gen.liveLoop bus timedOut q

/-- Run the generator to its next suspension. -/
def resume (gen : SseGenerator π) (bus : EventBus π) (timedOut : Bool) :
    EventBus π × SseGenerator π :=
  match gen.phase with
  | .created => gen.replayLoop bus timedOut (if 0 < gen.backfill then gen.topics else []) []
  | .replay events topics =>
    if gen.limitReached then (bus, gen.suspend .finished [])
    else gen.replayLoop bus timedOut topics events
  | .live q => gen.liveLoop bus timedOut q
  | .finished => (bus, gen)
  | .raised _ => (bus, gen)

/-- The consumer goes away. -/
def close (gen : SseGenerator π) (bus : EventBus π) : EventBus π × SseGenerator π :=
  match gen.phase with
  | .live q => (bus.unsubscribeLive q, gen.suspend .finished [])
  | .raised _ => (bus, gen)
  | _ => (bus, gen.suspend .finished [])

/-! ### Suspensions of an unlimited stream -/

variable {gen : SseGenerator π}

theorem liveLoop_item (h : gen.limit = none) {bus : EventBus π} {q : ℕ} {item : ℕ × π}
    {items : List (ℕ × π)} (hq : bus.waiting q = item :: items) (timedOut : Bool) :
    gen.liveLoop bus timedOut q =
      ({ bus with queues := bus.queues.modify q fun queue => { queue with items } },
        gen.suspend (.live q) [.data item.1 item.2]) := by
  simp [liveLoop, limitReached, h, EventBus.get_eq_some hq]

theorem liveLoop_empty (h : gen.limit = none) {bus : EventBus π} {q : ℕ}
    (hq : bus.waiting q = []) (timedOut : Bool) :
    gen.liveLoop bus timedOut q =
      (bus, gen.suspend (.live q) (if timedOut then [.heartbeat] else [])) := by
  simp [liveLoop, limitReached, h, EventBus.get_eq_none hq]

theorem filterMap_heartbeat (timedOut : Bool) :
    (if timedOut then [SseChunk.heartbeat] else []).filterMap
      (SseChunk.entry : SseChunk π → _) = [] := by
  cases timedOut <;> rfl

end SseGenerator
end ECN
