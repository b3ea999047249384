import ECN.AuditStore
import ECN.AuditStream
import ECN.ReaderTasks
import ECN.TenantApi

/-!
# Delivery of webhooks

Every finished submission starts a task that posts its audit event to the webhooks. The task
copies the list of subscriptions once and waits after each post, and other handlers may
subscribe and unsubscribe while it waits. It posts to each subscription of its copy that asks
for the event, once and in order, whatever happens in between.
-/
namespace ECN

open ReaderTasks (Pool PoolMove wakes worldAfter resumed)

/-! ## A task -/

/-- The event types that a round triggers. -/
def triggered (event : AuditEvent) : List String :=
  "transaction" :: if Submissions.hasFault event then ["fault"] else []

/-- A request to a subscriber; the last three fields are its JSON body. -/
structure WebhookPost where
  url : String
  webhookId : String
  eventTypes : List String
  payload : PyDict

namespace WebhookSubscription

/-- The filter of the subscription admits the event. -/
def wants (event : AuditEvent) (sub : WebhookSubscription) : Bool :=
  sub.events.isEmpty || (triggered event).any fun t => sub.events.contains t

def post (event : AuditEvent) (sub : WebhookSubscription) : WebhookPost :=
  ⟨sub.url, sub.webhookId, triggered event, event.toDict⟩

end WebhookSubscription

/-- Where a task stands: not started, about to open its HTTP client, waiting for the response
to a post with the rest of its copy, or ended. -/
inductive DispatchPhase where
  | created
  | opening
  | posting (rest : List WebhookSubscription)
  | ended

/-- A task of `dispatch`, with what it has posted so far. -/
structure Dispatch where
  event : AuditEvent
  phase : DispatchPhase
  posts : List WebhookPost

namespace Dispatch

def new (event : AuditEvent) : Dispatch := ⟨event, .created, []⟩

/-- Run the loop up to the next post. Whether the post fails makes no difference. -/
def deliver (task : Dispatch) : List WebhookSubscription → Dispatch
  | [] => { task with phase := .ended }
  | sub :: rest =>
    if sub.wants task.event then
      { task with phase := .posting rest, posts := task.posts ++ [sub.post task.event] }
    else task.deliver rest

/-- Run the task up to its next suspension. -/
def wake (registry : WebhookRegistry) (task : Dispatch) : Dispatch :=
  match task.phase with
  | .created => { task with phase := if registry.isEmpty then .ended else .opening }
  | .opening => task.deliver registry.listSubscriptions
  | .posting rest => task.deliver rest
  | .ended => task

theorem resumed_ended {task : Dispatch} (h : task.phase = .ended)
    (registries : List WebhookRegistry) : resumed wake task registries = task := by
  induction registries with
  | nil => rfl
  | cons registry registries ih =>
    have hstep : task.wake registry = task := by rw [wake, h]
    rw [resumed, List.foldl_cons, hstep]
    exact ih

/-- From its copy on, a task posts once each time it is resumed, until all is posted. -/
theorem resumed_deliver (task : Dispatch) (subs : List WebhookSubscription)
    (registries : List WebhookRegistry) :
    let due := subs.filter (WebhookSubscription.wants task.event)
    let after := resumed wake (task.deliver subs) registries
    after.posts = task.posts ++
        (due.map (WebhookSubscription.post task.event)).take (registries.length + 1) ∧
      (after.phase = .ended ↔ due.length ≤ registries.length) := by
  induction subs generalizing task registries with
  | nil =>
    have hended : resumed wake (task.deliver []) registries = { task with phase := .ended } :=
      resumed_ended rfl registries
    dsimp only
    rw [hended]
    simp
  | cons sub rest ih =>
    by_cases hwants : sub.wants task.event = true
    · -- the task waits for the response
      let posted : Dispatch :=
        { task with phase := .posting rest, posts := task.posts ++ [sub.post task.event] }
      have hdeliver : task.deliver (sub :: rest) = posted := by rw [deliver, if_pos hwants]
      dsimp only
      rw [hdeliver, List.filter_cons_of_pos hwants, List.map_cons, List.length_cons]
      cases registries with
      | nil => exact ⟨rfl, by simp [resumed, posted]⟩
      | cons registry registries =>
        obtain ⟨hposts, hended⟩ := ih posted registries
        have hwake : resumed wake posted (registry :: registries) =
            resumed wake (posted.deliver rest) registries := rfl
        rw [hwake, hposts, hended, List.append_assoc, List.length_cons]
        exact ⟨rfl, (Nat.add_le_add_iff_right).symm⟩
    · have hdeliver : task.deliver (sub :: rest) = task.deliver rest := by
        rw [deliver, if_neg hwants]
      dsimp only
      rw [hdeliver, List.filter_cons_of_neg hwants]
      exact ih task registries

/-- A task from its creation on. -/
theorem resumed_new (event : AuditEvent) (first second : WebhookRegistry)
    (more : List WebhookRegistry) :
    let due := if first.isEmpty then []
      else second.listSubscriptions.filter (WebhookSubscription.wants event)
    let after := resumed wake (new event) (first :: second :: more)
    after.posts = (due.map (WebhookSubscription.post event)).take (more.length + 1) ∧
      (after.phase = .ended ↔ due.length ≤ more.length) := by
  intro due after
  by_cases hempty : first.isEmpty = true
  · have hafter : after = { new event with phase := .ended } := by
      have hwake : (new event).wake first = { new event with phase := .ended } := by
        simp [wake, new, hempty]
      show resumed wake ((new event).wake first) (second :: more) = _
      rw [hwake, resumed_ended rfl]
    rw [hafter]
    simp [due, hempty, new]
  · let opened : Dispatch := { new event with phase := .opening }
    have hwake : (new event).wake first = opened := by simp [wake, new, opened, hempty]
    have hafter : after = resumed wake (opened.deliver second.listSubscriptions) more := by
      show resumed wake (((new event).wake first).wake second) more = _
      rw [hwake]
      rfl
    rw [hafter]
    simp only [due, if_neg hempty]
    exact resumed_deliver opened second.listSubscriptions more

/-- Nothing is posted before the second time. -/
theorem resumed_new_short (event : AuditEvent) {registries : List WebhookRegistry}
    (h : registries.length < 2) : (resumed wake (new event) registries).posts = [] := by
  cases registries with
  | nil => rfl
  | cons first rest =>
    cases rest with
    | nil => rfl
    | cons second more =>
      simp only [List.length_cons] at h
      omega

end Dispatch

/-! ## The registry -/

inductive WebhookInput where
  | subscribe (webhookId url : String) (events : List String)
  | unsubscribe (webhookId : String)

namespace WebhookRegistry

def act (registry : WebhookRegistry) : WebhookInput → WebhookRegistry
  | .subscribe webhookId url events => (registry.subscribe webhookId url events).1
  | .unsubscribe webhookId => (registry.unsubscribe webhookId).1

/-- A subscription stands under its own id. -/
def Keyed (registry : WebhookRegistry) : Prop :=
  ∀ webhookId sub, registry.get? webhookId = some sub → sub.webhookId = webhookId

theorem Keyed.act {registry : WebhookRegistry} (h : registry.Keyed) (input : WebhookInput) :
    (registry.act input).Keyed := by
  intro webhookId sub hget
  cases input with
  | subscribe newId url events =>
    rw [WebhookRegistry.act, subscribe, OrderedDict.get?_set] at hget
    split_ifs at hget with hid
    · cases hget
      exact hid.symm
    · exact h webhookId sub hget
  | unsubscribe oldId =>
    rw [WebhookRegistry.act, unsubscribe] at hget
    split_ifs at hget with hsome
    · rw [OrderedDict.get?_erase] at hget
      split_ifs at hget with hid
      exact h webhookId sub hget
    · exact h webhookId sub hget

/-- No two subscriptions have one id. -/
theorem Keyed.nodup {registry : WebhookRegistry} (h : registry.Keyed) :
    (registry.listSubscriptions.map WebhookSubscription.webhookId).Nodup := by
  have hkeys : registry.listSubscriptions.map WebhookSubscription.webhookId = registry.keys := by
    rw [listSubscriptions, OrderedDict.values, List.map_map]
    refine List.map_congr_left fun e he => ?_
    exact h e.1 e.2 ((registry.get?_eq_some_iff e.1 e.2).mpr he)
  rw [hkeys]
  exact registry.nodup

end WebhookRegistry

/-- A task never posts to one id twice. -/
theorem Dispatch.nodup_posts (event : AuditEvent) {registries : List WebhookRegistry}
    (h : ∀ registry ∈ registries, registry.Keyed) :
    ((resumed wake (new event) registries).posts.map WebhookPost.webhookId).Nodup := by
  rcases lt_or_ge registries.length 2 with hshort | hlong
  · rw [resumed_new_short event hshort]
    exact List.nodup_nil
  · obtain ⟨first, rest, rfl⟩ := List.exists_cons_of_length_pos (Nat.zero_lt_of_lt hlong)
    rw [List.length_cons] at hlong
    obtain ⟨second, more, rfl⟩ := List.exists_cons_of_length_pos (Nat.lt_of_succ_lt_succ hlong)
    have hids := (h second (by simp)).nodup
    rw [(resumed_new event first second more).1, List.map_take, List.map_map]
    refine (List.take_sublist _ _).nodup ?_
    split_ifs with hempty
    · exact List.nodup_nil
    · exact (List.filter_sublist.map _).nodup hids

/-! ## Any interleaving -/

/-- The registry and the tasks after some moves. -/
def webhookRun (moves : List (PoolMove WebhookInput Dispatch)) : Pool WebhookRegistry Dispatch :=
  Pool.run WebhookRegistry.act Dispatch.wake ⟨.empty, []⟩ moves

/-- Whatever else runs, a task posts nothing before it has its copy of the subscriptions, and
then the event to each subscription of the copy that asks for it, in order, one for each time
it is resumed, and never two under one id. It has ended when it has been resumed after the last
of these posts. -/
theorem posts_of_dispatch (past later : List (PoolMove WebhookInput Dispatch)) (event : AuditEvent) :
    let i := (webhookRun past).tasks.length
    let registries := wakes WebhookRegistry.act i (webhookRun past).world later
    ∃ task, (webhookRun (past ++ .spawn (.new event) :: later)).tasks[i]? = some task ∧
      (registries.length < 2 → task.posts = []) ∧
      (task.posts.map WebhookPost.webhookId).Nodup ∧
      ∀ first second more, registries = first :: second :: more →
        let due := if first.isEmpty then []
          else second.listSubscriptions.filter (WebhookSubscription.wants event)
        task.posts = (due.map (WebhookSubscription.post event)).take (more.length + 1) ∧
          (task.phase = .ended ↔ due.length ≤ more.length) := by
  intro i registries
  let start : Pool WebhookRegistry Dispatch := ⟨.empty, []⟩
  have hworld : (webhookRun past).world = worldAfter WebhookRegistry.act start.world past :=
    ReaderTasks.world_run start past
  have htask : (webhookRun (past ++ .spawn (.new event) :: later)).tasks[i]? =
      some (resumed Dispatch.wake (.new event) registries) := by
    have hspawn := ReaderTasks.tasks_spawn WebhookRegistry.act Dispatch.wake start past later
      (.new event)
    rw [← hworld] at hspawn
    exact hspawn
  have hkeyed : ∀ registry ∈ registries, registry.Keyed := by
    have hempty : WebhookRegistry.Keyed .empty := fun webhookId sub hget => nomatch hget
    refine ReaderTasks.wakes_of_step (fun registry input h => h.act input) i ?_ later
    rw [hworld]
    exact ReaderTasks.worldAfter_of_step (fun registry input h => h.act input) hempty past
  refine ⟨_, htask, Dispatch.resumed_new_short event, Dispatch.nodup_posts event hkeyed, ?_⟩
  intro first second more hsplit
  rw [hsplit]
  exact Dispatch.resumed_new event first second more

/-- The second webhook leaves after the copy was made, and is still posted to. -/
example (event : AuditEvent) :
    ((webhookRun [.act (.subscribe "w-1" "http://a" []), .act (.subscribe "w-2" "http://b" []),
      .spawn (.new event), .resume 0, .resume 0, .act (.unsubscribe "w-2"),
      .resume 0]).tasks.map fun task => task.posts.map WebhookPost.webhookId) =
        [["w-1", "w-2"]] := rfl

end ECN
