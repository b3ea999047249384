import ECN.Subscriptions

/-!
# The ring buffers of the bus

After any calls a topic's buffer holds the last payloads that were published on it, numbered
from the first publication on, and a consumer reads it from any offset. What is published on
another topic changes nothing.
-/
namespace ECN

variable {π : Type*}

namespace EventBus

/-- The payloads that a run publishes on a topic. -/
def publishedOn (moves : List (BusMove π)) (t : Topic) : List π :=
  moves.flatMap (BusMove.payloads t)

/-- What a bus keeps of the payloads published on a topic, and what a consumer gets of it. -/
structure Rings (maxlen : ℕ) (published : List π) (t : Topic) (bus : EventBus π) : Prop where
  payloads : (bus.buffers t).map Prod.snd = published.rtake (min published.length maxlen)
  numbers : (bus.buffers t).map Prod.fst =
    List.range' (published.length - min published.length maxlen) (min published.length maxlen)
  nextOffset : bus.nextOffset t.name = published.length
  others : ∀ t' ≠ t, ∀ payload, ∃ after seq, bus.publish t'.name payload = .ok (after, seq) ∧
    after.buffers t = bus.buffers t ∧ after.nextOffset t.name = bus.nextOffset t.name ∧
      after.consume t.name = bus.consume t.name
  consume : ∀ offset limit, 1 ≤ limit → ∀ available,
    available = (bus.buffers t).filter (fun e => decide (offset ≤ e.1)) →
      bus.consume t.name offset limit = .ok ((available.take (min limit available.length)).map
        fun e => ⟨e.1, t.name, e.2⟩)

/-- The run has numbered what it published, whatever other calls were made. -/
theorem holds_run (maxlen : ℕ) (moves : List (BusMove π)) :
    (run maxlen moves).maxlen = maxlen ∧ (run maxlen moves).Holds (publishedOn moves) := by
  induction moves using List.reverseRecOn with
  | nil => exact ⟨rfl, holds_new maxlen⟩
  | append_singleton moves move ih =>
    obtain ⟨hmax, hholds⟩ := ih
    obtain ⟨hsame, hnext⟩ := hholds.apply move
    have hpublished : publishedOn (moves ++ [move]) =
        fun t => publishedOn moves t ++ move.payloads t := by
      funext t
      simp [publishedOn]
    rw [run_concat, hpublished]
    exact ⟨hsame.trans hmax, hnext⟩

@[simp] theorem nextOffset_name (bus : EventBus π) (t : Topic) :
    bus.nextOffset t.name = bus.seq t := by
  simp [EventBus.nextOffset]

/-- A publication touches the buffer and the counter of its own topic alone. -/
theorem publish_other (bus : EventBus π) {t t' : Topic} (hne : t' ≠ t) (payload : π) :
    ∃ after seq, bus.publish t'.name payload = .ok (after, seq) ∧
      after.buffers t = bus.buffers t ∧ after.nextOffset t.name = bus.nextOffset t.name ∧
        after.consume t.name = bus.consume t.name := by
  refine ⟨_, _, bus.publish_name t' payload, ?_, ?_, ?_⟩
  · exact Function.update_of_ne hne.symm _ _
  · rw [nextOffset_name, nextOffset_name]
    exact Function.update_of_ne hne.symm _ _
  · funext offset limit
    rw [consume_name, consume_name]
    dsimp only
    rw [Function.update_of_ne hne.symm]

theorem Holds.rings {bus : EventBus π} {published : Topic → List π} (h : bus.Holds published)
    (t : Topic) : Rings bus.maxlen (published t) t bus where
  payloads := by
    rw [h.buffers]
    exact RetainedLog.map_snd_retained bus.maxlen (published t)
  numbers := by
    rw [h.buffers]
    exact RetainedLog.map_fst_retained bus.maxlen (published t)
  nextOffset := by
    rw [nextOffset_name]
    exact h.seq t
  others t' hne payload := bus.publish_other hne payload
  consume offset limit hlimit available havailable := by
    have hroom : available.take (min limit available.length) = available.take limit := by
      rw [List.take_eq_take_iff]
      omega
    rw [consume_name, max_eq_right hlimit, hroom, havailable]

/-- After any calls every topic's buffer is the ring of what was published on it. -/
theorem rings_run (maxlen : ℕ) (moves : List (BusMove π)) (t : Topic) :
    Rings maxlen (publishedOn moves t) t (run maxlen moves) := by
  obtain ⟨hmax, hholds⟩ := holds_run maxlen moves
  have hrings := hholds.rings t
  rwa [hmax] at hrings

end EventBus

end ECN
