import ECN.Stream

/-!
# Subscribers of the bus

A queue stands in the list of a topic once for each time that the subscription names the
topic, and is removed from it once. In a run in which no subscription names a topic twice,
an event is put at most once into a queue, and a queue that is unsubscribed receives
nothing more. A subscription that repeats a topic breaks both.
-/
namespace ECN

variable {π : Type*}

namespace EventBus

/-- The bus after some calls. -/
def run (maxlen : ℕ) (moves : List (BusMove π)) : EventBus π := moves.foldl apply (new π maxlen)

/-- At every moment of the run: an event is put at most once into each queue, and a queue
of the bus that was unsubscribed is in no list and receives no event. -/
structure DeliversOnce (maxlen : ℕ) (moves : List (BusMove π)) : Prop where
  once : ∀ earlier topic t payload, Topic.ofName topic = some t →
    earlier ++ [.publish topic payload] <+: moves → ∀ q,
    (run maxlen (earlier ++ [.publish topic payload])).waiting q =
        (run maxlen earlier).waiting q ∨
      (run maxlen (earlier ++ [.publish topic payload])).waiting q =
        (run maxlen earlier).waiting q ++ [((run maxlen earlier).seq t, payload)]
  gone : ∀ earlier q later, q < (run maxlen earlier).queues.length →
    earlier ++ .unsubscribe q :: later <+: moves →
    ∀ t, q ∉ (run maxlen (earlier ++ .unsubscribe q :: later)).subscribers t
  silent : ∀ earlier q later topic payload, q < (run maxlen earlier).queues.length →
    earlier ++ .unsubscribe q :: (later ++ [.publish topic payload]) <+: moves →
    (run maxlen (earlier ++ .unsubscribe q :: (later ++ [.publish topic payload]))).waiting q =
      (run maxlen (earlier ++ .unsubscribe q :: later)).waiting q

/-- No topic of the bus is named twice. -/
def Distinct (topics : List String) : Prop := (topics.filterMap Topic.ofName).Nodup

theorem run_append (maxlen : ℕ) (earlier later : List (BusMove π)) :
    run maxlen (earlier ++ later) = later.foldl apply (run maxlen earlier) :=
  List.foldl_append

theorem run_concat (maxlen : ℕ) (earlier : List (BusMove π)) (move : BusMove π) :
    run maxlen (earlier ++ [move]) = (run maxlen earlier).apply move :=
  run_append maxlen earlier [move]

/-! ### One call -/

variable (bus : EventBus π)

theorem apply_publish {topic : String} {t : Topic} (h : Topic.ofName topic = some t)
    (payload : π) : ∃ after, bus.apply (.publish topic payload) = after ∧
      after.subscribers = bus.subscribers ∧
      after.queues = fanOut (bus.seq t, payload) bus.queues (bus.subscribers t) := by
  obtain rfl := name_of_ofName h
  refine ⟨_, rfl, ?_⟩
  rw [apply, publish_name]
  exact ⟨rfl, rfl⟩

theorem apply_get (q : ℕ) : (bus.apply (.get q)).subscribers = bus.subscribers ∧
    (bus.apply (.get q)).queues.length = bus.queues.length := by
  cases hq : bus.waiting q with
  | nil =>
    rw [apply, get_eq_none hq]
    exact ⟨rfl, rfl⟩
  | cons item items =>
    rw [apply, get_eq_some hq]
    exact ⟨rfl, List.length_modify ..⟩

/-- Queues are never forgotten. -/
theorem length_queues_apply (move : BusMove π) :
    bus.queues.length ≤ (bus.apply move).queues.length := by
  cases move with
  | publish topic payload =>
    cases ht : Topic.ofName topic with
    | none => rw [apply_publish_unknown bus ht]
    | some t =>
      obtain ⟨after, hafter, -, hqueues⟩ := bus.apply_publish ht payload
      rw [hafter, hqueues, length_fanOut]
  | subscribe topics maxsize => simp [apply, subscribeLive]
  | unsubscribe q => exact le_rfl
  | get q => rw [(bus.apply_get q).2]

/-- A call subscribes no queue but a new one. -/
theorem mem_subscribers_apply {move : BusMove π} {t : Topic} {q : ℕ}
    (h : q ∈ (bus.apply move).subscribers t) :
    q ∈ bus.subscribers t ∨ q = bus.queues.length := by
  cases move with
  | publish topic payload =>
    cases ht : Topic.ofName topic with
    | none =>
      rw [apply_publish_unknown bus ht] at h
      exact .inl h
    | some t' =>
      obtain ⟨after, hafter, hsub, -⟩ := bus.apply_publish ht payload
      rw [hafter, hsub] at h
      exact .inl h
  | subscribe topics maxsize =>
    rw [apply, subscribers_subscribeLive, List.mem_append] at h
    exact h.imp_right List.eq_of_mem_replicate
  | unsubscribe q' => exact .inl (List.mem_of_mem_erase h)
  | get q' =>
    rw [(bus.apply_get q').1] at h
    exact .inl h

/-- A publication leaves a queue that is not subscribed alone. -/
theorem waiting_publish_of_notMem {q : ℕ} (h : ∀ t, q ∉ bus.subscribers t) (topic : String)
    (payload : π) : (bus.apply (.publish topic payload)).waiting q = bus.waiting q := by
  cases ht : Topic.ofName topic with
  | none => rw [apply_publish_unknown bus ht]
  | some t =>
    obtain ⟨after, hafter, -, hqueues⟩ := bus.apply_publish ht payload
    rw [hafter]
    exact waiting_fanOut_of_notMem hqueues (List.count_eq_zero.mpr (h t))

/-- A queue that is subscribed at most once is put at most one item. -/
theorem waiting_publish_of_nodup {topic : String} {t : Topic} (ht : Topic.ofName topic = some t)
    (h : (bus.subscribers t).Nodup) (payload : π) (q : ℕ) :
    (bus.apply (.publish topic payload)).waiting q = bus.waiting q ∨
      (bus.apply (.publish topic payload)).waiting q = bus.waiting q ++ [(bus.seq t, payload)] := by
  obtain ⟨after, hafter, -, hqueues⟩ := bus.apply_publish ht payload
  rw [hafter]
  by_cases hmem : q ∈ bus.subscribers t
  · by_cases hroom : ∀ queue ∈ bus.queues[q]?, queue.full = false
    · by_cases hq : q < bus.queues.length
      · exact .inr (waiting_fanOut hqueues hq (List.count_eq_one_of_mem h hmem) hroom)
      · refine .inl ?_
        rw [waiting, waiting, hqueues, getElem?_fanOut, List.getElem?_eq_none (not_lt.mp hq)]
        rfl
    · refine .inl ?_
      push Not at hroom
      obtain ⟨queue, hget, hfull⟩ := hroom
      rw [waiting, waiting, hqueues, getElem?_fanOut, List.count_eq_one_of_mem h hmem,
        Option.mem_def.mp hget]
      simp [Queue.offer, Queue.putNowait, hfull]
  · exact .inl (waiting_fanOut_of_notMem hqueues (List.count_eq_zero.mpr hmem))

/-! ### Runs -/

variable {bus}

/-- A queue of the bus that no topic lists. -/
structure Gone (q : ℕ) (bus : EventBus π) : Prop where
  known : q < bus.queues.length
  unlisted : ∀ t, q ∉ bus.subscribers t

theorem Gone.apply {q : ℕ} (h : Gone q bus) (move : BusMove π) : Gone q (bus.apply move) where
  known := h.known.trans_le (bus.length_queues_apply move)
  unlisted t ht := by
    rcases bus.mem_subscribers_apply ht with hold | hnew
    · exact h.unlisted t hold
    · exact absurd h.known (by omega)

theorem Gone.run {q : ℕ} (h : Gone q bus) (moves : List (BusMove π)) :
    Gone q (moves.foldl EventBus.apply bus) := by
  induction moves generalizing bus with
  | nil => exact h
  | cons move moves ih => exact ih (h.apply move)

/-- No queue stands twice in one list. -/
def Single (bus : EventBus π) : Prop := ∀ t, (bus.subscribers t).Nodup

theorem Single.unsubscribe (h : Single bus) {q : ℕ} (hq : q < bus.queues.length) :
    Gone q (bus.apply (.unsubscribe q)) :=
  ⟨hq, fun t => (h t).not_mem_erase⟩

theorem Single.apply (h : Single bus) {published : Topic → List π} (hb : bus.Holds published)
    {move : BusMove π} (hmove : ∀ topics maxsize, move = .subscribe topics maxsize →
      Distinct topics) : Single (bus.apply move) := by
  intro t
  cases move with
  | publish topic payload =>
    cases ht : Topic.ofName topic with
    | none =>
      rw [apply_publish_unknown bus ht]
      exact h t
    | some t' =>
      obtain ⟨after, hafter, hsub, -⟩ := bus.apply_publish ht payload
      rw [hafter, hsub]
      exact h t
  | subscribe topics maxsize =>
    have hdistinct := hmove topics maxsize rfl
    rw [EventBus.apply, subscribers_subscribeLive]
    refine (h t).append ?_ fun q hold hnew => ?_
    · exact List.nodup_replicate.mpr (List.nodup_iff_count_le_one.mp hdistinct t)
    · have hlt := hb.subscribers t q hold
      have heq := List.eq_of_mem_replicate hnew
      omega
  | unsubscribe q => exact (h t).erase q
  | get q =>
    rw [(bus.apply_get q).1]
    exact h t

theorem single_run (maxlen : ℕ) {moves : List (BusMove π)}
    (h : ∀ topics maxsize, .subscribe topics maxsize ∈ moves → Distinct topics) :
    Single (run maxlen moves) := by
  induction moves using List.reverseRecOn with
  | nil => exact fun t => List.nodup_nil
  | append_singleton moves move ih =>
    rw [run_concat]
    obtain ⟨published, hb⟩ := exists_holds maxlen moves
    refine Single.apply (ih fun topics maxsize hmem => ?_) hb fun topics maxsize hmove => ?_
    · exact h topics maxsize (List.mem_append_left _ hmem)
    · exact h topics maxsize (List.mem_append_right _ (by simp [hmove]))

/-- Runs in which no subscription repeats a topic. -/
theorem deliversOnce_of_distinct (maxlen : ℕ) {moves : List (BusMove π)}
    (h : ∀ topics maxsize, .subscribe topics maxsize ∈ moves → Distinct topics) :
    DeliversOnce maxlen moves := by
  have hsingle (earlier later : List (BusMove π)) (hpre : earlier ++ later <+: moves) :
      Single (run maxlen earlier) := single_run maxlen fun topics maxsize hmem =>
    h topics maxsize (hpre.subset (List.mem_append_left _ hmem))
  have hgone (earlier later : List (BusMove π)) (q : ℕ)
      (hq : q < (run maxlen earlier).queues.length)
      (hpre : earlier ++ .unsubscribe q :: later <+: moves) :
      Gone q (run maxlen (earlier ++ .unsubscribe q :: later)) := by
    rw [run_append]
    exact ((hsingle earlier _ hpre).unsubscribe hq).run later
  constructor
  · intro earlier topic t payload ht hpre q
    rw [run_concat]
    exact waiting_publish_of_nodup _ ht (hsingle earlier _ hpre t) payload q
  · intro earlier q later hq hpre
    exact (hgone earlier later q hq hpre).unlisted
  · intro earlier q later topic payload hq hpre
    rw [← List.cons_append, ← List.append_assoc] at hpre ⊢
    rw [run_concat]
    exact waiting_publish_of_notMem _
      (hgone earlier later q hq ((List.prefix_append _ _).trans hpre)).unlisted topic payload

/-- A repeated topic keeps the queue subscribed. -/
theorem distinct_of_deliversOnce (maxlen : ℕ) {topics : List String} (maxsize : ℕ)
    (h : DeliversOnce (π := π) maxlen [.subscribe topics maxsize, .unsubscribe 0]) :
    Distinct topics := by
  rw [Distinct, List.nodup_iff_count_le_one]
  intro t
  have hgone := h.gone [.subscribe topics maxsize] 0 [] (by simp [run, apply, subscribeLive, new])
    (List.prefix_refl _) t
  have hlist : (run maxlen [.subscribe topics maxsize, BusMove.unsubscribe (π := π) 0]).subscribers
      t = (List.replicate ((topics.filterMap Topic.ofName).count t) 0).erase 0 := by
    have hsub := subscribers_subscribeLive (new π maxlen) topics maxsize t
    change (((new π maxlen).subscribeLive topics maxsize).1.subscribers t).erase 0 = _
    rw [hsub]
    rfl
  rw [List.singleton_append, hlist] at hgone
  by_contra hmany
  obtain ⟨n, hn⟩ : ∃ n, (topics.filterMap Topic.ofName).count t = n + 2 :=
    ⟨(topics.filterMap Topic.ofName).count t - 2, by omega⟩
  rw [hn] at hgone
  exact hgone (by simp [List.replicate_succ])

/-- Delivery is at most once and unsubscribing complete, in every run whose subscriptions are
from a set of topic lists, exactly when none of these lists repeats a topic. -/
theorem deliversOnce_iff (maxlen : ℕ) (lists : Set (List String)) :
    (∀ moves : List (BusMove π), (∀ topics maxsize, .subscribe topics maxsize ∈ moves →
        topics ∈ lists) → DeliversOnce maxlen moves) ↔
      ∀ topics ∈ lists, Distinct topics := by
  constructor
  · intro h topics htopics
    refine distinct_of_deliversOnce maxlen 256 (h _ ?_)
    intro topics' maxsize hmem
    simp only [List.mem_cons, BusMove.subscribe.injEq, reduceCtorEq, List.not_mem_nil,
      or_false] at hmem
    rw [hmem.1]
    exact htopics
  · intro h moves hmoves
    exact deliversOnce_of_distinct maxlen fun topics maxsize hmem =>
      h topics (hmoves topics maxsize hmem)

/-- A query that repeats a topic: an event before the queue is unsubscribed, one after. -/
def repeatedTopic : List (BusMove ℕ) :=
  [.subscribe ["transactions", "transactions"] 256, .publish "transactions" 7, .unsubscribe 0,
   .publish "transactions" 8]

/-- The first event arrives twice, and the second although the queue is unsubscribed. -/
theorem repeated_topic_delivered :
    (run 10 repeatedTopic).waiting 0 = [(0, 7), (0, 7), (1, 8)] ∧
      ¬ DeliversOnce 10 repeatedTopic := by
  refine ⟨rfl, fun h => ?_⟩
  have hgone := h.gone (repeatedTopic.take 2) 0 [.publish "transactions" 8] (by decide)
    (List.prefix_refl _) .transactions
  have hlisted : (run 10 repeatedTopic).subscribers .transactions = [0] := rfl
  exact hgone (hlisted ▸ List.mem_singleton_self 0)

end EventBus
end ECN
