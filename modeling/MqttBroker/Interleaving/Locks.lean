import Mathlib.Data.Fintype.Card
import MqttBroker.Interleaving.Shared
import MqttBroker.Lib.Locks

/-!
# The mutexes

The handlers run on several threads, over tables and topics that mutexes protect. Here a
function is what it does with them: the mutexes it locks and unlocks, in order, the
members it accesses in between, and the calls of `session::new_packet_id`, which does
not return when it finds no packet id. What it finds in the tables and the sessions, and
what it is called with, are its parameters, and where it catches an exception (or ends by
one), after how many of its operations it is thrown.

What Shan.Net locks, the retained message of a topic (which is atomic) and the sessions
themselves (which have no mutex) are left out.

* `calls_finish`: whoever waits for a mutex waits, in the end, for a thread that can go
  on, or for one that looks for a packet id without end.
* `members_protected`: the tables, and the subscribers of a topic, are accessed by one
  thread at a time, which has locked the mutex of them. Only the trace of
  `mqtt_server::str` looks at the tables without.
-/

namespace MqttBroker

/-- The mutexes. -/
inductive Mutex
  /-- `_client_mutex` of `mqtt_server`. -/
  | client
  /-- `_topic_mutex`. -/
  | topics
  /-- `_session_mutex`. -/
  | session
  /-- `_client_mutex` of a topic. -/
  | topic (t : TopicRef)
  deriving DecidableEq

/-- The members that are protected by a mutex. -/
inductive Member
  | clients
  | topics
  | wildTopics
  | sessions
  /-- `_clients` of a topic. -/
  | subscribers (t : TopicRef)
  deriving DecidableEq

/-- `_topics` or `_wild_topics`. -/
def Member.table (isWild : Bool) : Member := if isWild then wildTopics else topics

/-- The mutex that protects a member. -/
def Member.mutex : Member → Mutex
  | clients => .client
  | topics | wildTopics => .topics
  | sessions => .session
  | subscribers t => .topic t

/-- Whether a mutex may be locked after `_topic_mutex`. -/
def Mutex.rank : Mutex → Bool
  | topics => false
  | client | session | topic _ => true

/-! ## The functions -/

namespace Locking

open LockOp

/-- What is done with the mutexes. -/
abbrev Ops := List (LockOp Mutex Member)

/-- `mqtt_server::get_client_ptr`, `reg_client_ptr` and `delete_client_ptr`. -/
def withClients : Ops := guard .client [access .clients]

/-- `mqtt_server::get_session_ptr`, `reg_session_ptr` and `delete_session_ptr`. -/
def withSessions : Ops := guard .session [access .sessions]

/-- `mqtt_server::generate_unique_id`, for the ids it tries. -/
def generateUniqueId (tried : List Bytes) : Ops := tried.flatMap fun _ => withClients

/-- `mqtt_server::get_topic_ptr_to_subscribe`. A new topic is inserted. -/
def getTopicPtrToSubscribe (isWild isNew : Bool) : Ops :=
  guard .topics (access (.table isWild) :: if isNew then [access (.table isWild)] else [])

/-- `topic::empty`, `subscribe` and `unsubscribe`. -/
def withSubscribers (t : TopicRef) : Ops := guard (.topic t) [access (.subscribers t)]

/-- Whether `session::new_packet_id` returns. -/
abbrev Found := Bool

/-- A topic that publishes, and its subscribers. -/
structure Posted where
  t : TopicRef
  subscribers : List Found
  deriving DecidableEq

/-- `topic::publish`, with `mqtt_client::publish` for each of the subscribers. -/
def publishTopic (p : Posted) : Ops :=
  guard (.topic p.t) <| access (.subscribers p.t) ::
    p.subscribers.flatMap fun found => [call found, access (.subscribers p.t)]

/-- `topic::publish_retained`, with `mqtt_client::publish` for the client. -/
def publishRetained (t : TopicRef) (found : Found) : Ops :=
  guard (.topic t) [access (.subscribers t), call found]

/-- A table of topics is gone through, with something done for some of them. -/
def forTopics {α : Type} (isWild : Bool) (f : α → Ops) (found : List (Option α)) : Ops :=
  guard .topics <| access (.table isWild) ::
    found.flatMap fun a => a.elim [] f ++ [access (.table isWild)]

/-- `mqtt_server::publish_retained_message`, for the topics that have a retained message, and
    for the wild topics, each with the topics in the table, of which some match. -/
def publishRetainedMessage (subscribed : List (TopicRef × Found))
    (wild : List (TopicRef × List (Option Found))) : Ops :=
  subscribed.flatMap (fun s => publishRetained s.1 s.2) ++
    wild.flatMap fun w => forTopics false (publishRetained w.1) w.2

/-- A topic is looked up by its name. -/
def lookUp : Ops := guard .topics [access .topics]

/-- The first part of `mqtt_server::handle_publish`. No topic is found where an exception is
    thrown. -/
def publish (p : Posted) (thrown : Option ℕ) : Ops := attempt thrown (lookUp ++ publishTopic p)

/-- `mqtt_server::publish_will_message`, for a client with a will: `new_packet_id` is called
    for the message, too. -/
def publishWillMessage (found : Found) (p : Posted) (thrown : Option ℕ) : Ops :=
  attempt thrown (lookUp ++ call found :: publishTopic p)

/-- A topic filter that is subscribed to: its topic, and whether that is new. -/
structure Entered where
  isWild : Bool
  t : TopicRef
  isNew : Bool
  deriving DecidableEq

/-- A topic is obtained and subscribed to. -/
def subscribe (s : Entered) : Ops := getTopicPtrToSubscribe s.isWild s.isNew ++ withSubscribers s.t

/-- A topic filter that is unsubscribed from: its topic, and whether that is empty then. -/
structure Left where
  isWild : Bool
  t : TopicRef
  empty : Bool
  deriving DecidableEq

/-- An iteration of `mqtt_server::unsubscribe_all`. -/
def unsubscribe (s : Left) (thrown : Option ℕ) : Ops :=
  attempt thrown <| guard .topics <| access (.table s.isWild) ::
    (withSubscribers s.t ++ withSubscribers s.t ++
      if s.empty then [access (.table s.isWild)] else [])

/-- `mqtt_server::unsubscribe_all`. -/
def unsubscribeAll (subs : List (Left × Option ℕ)) : Ops := subs.flatMap fun s => unsubscribe s.1 s.2

/-- What `mqtt_server::handle_connect` does about the session. -/
inductive Joined
  /-- A clean session replaces the one that is stored, if any. -/
  | clean
  /-- No session is stored. -/
  | unknown
  /-- A session is resumed, with its subscriptions, and the topics that publish their
      retained messages. -/
  | resumed (subs : List Entered) (subscribed : List (TopicRef × Found))
      (wild : List (TopicRef × List (Option Found)))
  deriving DecidableEq

/-- The session in `mqtt_server::handle_connect`. -/
def join : Joined → Ops
  | .clean | .unknown => withSessions ++ withSessions
  | .resumed .. => withSessions

/-- The end of `mqtt_server::handle_connect`. -/
def resume : Joined → Ops
  | .clean | .unknown => []
  | .resumed subs subscribed wild => subs.flatMap subscribe ++ publishRetainedMessage subscribed wild

/-- `mqtt_server::handle_connect`, with the ids tried by `check_integrity`; if the CONNECT is
    accepted, whether a client is displaced. -/
def handleConnect (tried : List Bytes) (accepted : Option (Bool × Joined)) : Ops :=
  generateUniqueId tried ++ accepted.elim [] fun a =>
    withClients ++ (if a.1 then withClients else []) ++ join a.2 ++ withClients ++ resume a.2

/-- `mqtt_server::handle_publish`, with the wild topics, of which some match, and the trash
    topic, if it publishes. -/
def handlePublish (p : Posted) (thrown : Option ℕ) (wild : List (Option Posted))
    (trash : Option Posted) : Ops :=
  publish p thrown ++ forTopics true publishTopic wild ++ trash.elim [] publishTopic

/-- What `mqtt_server::handle_subscribe` does about an entry. -/
inductive Requested
  | refused
  | trash (t : TopicRef)
  | entered (s : Entered)
  deriving DecidableEq

/-- An entry of a SUBSCRIBE. -/
def request : Requested → Ops
  | .refused => []
  | .trash t => withSubscribers t
  | .entered s => subscribe s

/-- `mqtt_server::handle_subscribe`. -/
def handleSubscribe (entries : List Requested) (subscribed : List (TopicRef × Found))
    (wild : List (TopicRef × List (Option Found))) : Ops :=
  entries.flatMap request ++ publishRetainedMessage subscribed wild

/-- An entry of an UNSUBSCRIBE, in `mqtt_server::handle_unsubscribe`: unlike in `unsubscribe_all`,
    `_topic_mutex` is unlocked in between. -/
def cancel (isWild : Bool) (found : Option Left) : Ops :=
  guard .topics [access (.table isWild)] ++ found.elim [] fun s =>
    withSubscribers s.t ++ withSubscribers s.t ++
      if s.empty then guard .topics [access (.table isWild)] else []

/-- `mqtt_server::handle_unsubscribe`. -/
def handleUnsubscribe (entries : List (Bool × Option Left)) : Ops :=
  entries.flatMap fun e => cancel e.1 e.2

/-- A client is removed, in `mqtt_server::handle_disconnect` and
    `mqtt_server::handle_channel_disconnected`. -/
def remove (subs : List (Left × Option ℕ)) (cleanSession : Bool) : Ops :=
  unsubscribeAll subs ++ (if cleanSession then withSessions else []) ++ withClients

/-- `mqtt_server::handle_disconnect`. -/
def handleDisconnect (subs : List (Left × Option ℕ)) (cleanSession : Bool) : Ops :=
  remove subs cleanSession

/-- `mqtt_server::handle_channel_disconnected`, for a client with or without a will. -/
def handleChannelDisconnected (will : Option (Found × Posted × Option ℕ))
    (subs : List (Left × Option ℕ)) (cleanSession : Bool) : Ops :=
  will.elim [] (fun w => publishWillMessage w.1 w.2.1 w.2.2) ++ remove subs cleanSession

/-- `mqtt_server::str` does not lock anything. -/
def str : Ops := [peek .clients, peek .topics, peek .wildTopics, peek .sessions]

/-- The calls of `packet_handler` that lock something, or look at the tables. -/
inductive Call
  | connect (tried : List Bytes) (accepted : Option (Bool × Joined))
  | publish (p : Posted) (thrown : Option ℕ) (wild : List (Option Posted)) (trash : Option Posted)
  | subscribe (entries : List Requested) (subscribed : List (TopicRef × Found))
      (wild : List (TopicRef × List (Option Found)))
  | unsubscribe (entries : List (Bool × Option Left))
  | disconnect (subs : List (Left × Option ℕ)) (cleanSession : Bool)
  /-- `packet_handler::channel_disconnected`, for a channel with a client. -/
  | channelDisconnected (will : Option (Found × Posted × Option ℕ))
      (subs : List (Left × Option ℕ)) (cleanSession : Bool)
  /-- `packet_handler::channel_disconnected`, for one without. -/
  | channelGone
  deriving DecidableEq

/-- A call, as long as it does not throw. -/
def Call.ops : Call → Ops
  | connect tried accepted => handleConnect tried accepted
  | publish p thrown wild trash => handlePublish p thrown wild trash
  | subscribe entries subscribed wild => handleSubscribe entries subscribed wild
  | unsubscribe entries => handleUnsubscribe entries
  | disconnect subs cleanSession => handleDisconnect subs cleanSession
  | channelDisconnected will subs cleanSession =>
    handleChannelDisconnected will subs cleanSession ++ str
  | channelGone => str

/-- The threads, each with its calls, and where they throw. -/
def serving {ι : Type} (calls : ι → List (Call × Option ℕ)) : Pool ι Ops (Mutex → Bool) where
  shared _ := false
  thread i := (calls i).flatMap fun c => attempt c.2 c.1.ops

/-! ## The discipline -/

/-- A block that keeps the discipline, with some mutexes locked. -/
abbrev Sound (held : List Mutex) (ops : Ops) : Prop := LockOp.Sound Mutex.rank Member.mutex held ops

theorem mutex_table (isWild : Bool) : (Member.table isWild).mutex = .topics := by
  cases isWild <;> rfl

theorem sound_withClients : Sound [] withClients :=
  .guard (fun _ h => absurd h List.not_mem_nil) (.access_cons List.mem_cons_self .nil)

theorem sound_withSessions : Sound [] withSessions :=
  .guard (fun _ h => absurd h List.not_mem_nil) (.access_cons List.mem_cons_self .nil)

/-- A topic may be locked with `_topic_mutex` locked, or without. -/
theorem sound_topic {held : List Mutex} (hheld : ∀ m ∈ held, m = .topics) {t : TopicRef} {ops : Ops}
    (h : Sound (.topic t :: held) ops) :
    Sound held (guard (.topic t) (access (.subscribers t) :: ops)) := by
  refine .guard (fun m hm => ?_) (.access_cons List.mem_cons_self h)
  rw [hheld m hm]
  exact Bool.false_lt_true

theorem sound_withSubscribers {held : List Mutex} (hheld : ∀ m ∈ held, m = .topics) (t : TopicRef) :
    Sound held (withSubscribers t) := sound_topic hheld .nil

theorem sound_publishTopic {held : List Mutex} (hheld : ∀ m ∈ held, m = .topics) (p : Posted) :
    Sound held (publishTopic p) :=
  sound_topic hheld <| .flatMap fun found _ =>
    .call_cons found (.access_cons List.mem_cons_self .nil)

theorem sound_publishRetained {held : List Mutex} (hheld : ∀ m ∈ held, m = .topics) (t : TopicRef)
    (found : Found) : Sound held (publishRetained t found) :=
  sound_topic hheld (.call_cons found .nil)

/-- No mutex is locked. -/
theorem held_nil : ∀ m ∈ ([] : List Mutex), m = .topics := fun _ h => absurd h List.not_mem_nil

/-- Only `_topic_mutex` is locked. -/
theorem held_topics : ∀ m ∈ [Mutex.topics], m = .topics := fun _ h => List.mem_singleton.1 h

theorem sound_topics {ops : Ops} (h : Sound [.topics] ops) : Sound [] (guard .topics ops) :=
  .guard (fun _ h => absurd h List.not_mem_nil) h

theorem sound_table (isWild : Bool) {ops : Ops} (h : Sound [.topics] ops) :
    Sound [.topics] (access (.table isWild) :: ops) :=
  .access_cons (mutex_table isWild ▸ List.mem_cons_self) h

theorem sound_forTopics {α : Type} (isWild : Bool) {f : α → Ops} (hf : ∀ a, Sound [.topics] (f a))
    (found : List (Option α)) : Sound [] (forTopics isWild f found) :=
  sound_topics <| sound_table isWild <| .flatMap fun a _ =>
    .append (.elim hf a) (sound_table isWild .nil)

theorem sound_publishRetainedMessage (subscribed : List (TopicRef × Found))
    (wild : List (TopicRef × List (Option Found))) :
    Sound [] (publishRetainedMessage subscribed wild) :=
  .append (.flatMap fun s _ => sound_publishRetained held_nil s.1 s.2)
    (.flatMap fun w _ => sound_forTopics false (sound_publishRetained held_topics w.1) w.2)

theorem sound_lookUp : Sound [] lookUp := sound_topics (sound_table false .nil)

theorem sound_publish (p : Posted) (thrown : Option ℕ) : Sound [] (publish p thrown) :=
  .attempt (.append sound_lookUp (sound_publishTopic held_nil p)) thrown

theorem sound_publishWillMessage (found : Found) (p : Posted) (thrown : Option ℕ) :
    Sound [] (publishWillMessage found p thrown) :=
  .attempt (.append sound_lookUp (.call_cons found (sound_publishTopic held_nil p))) thrown

theorem sound_subscribe (s : Entered) : Sound [] (subscribe s) :=
  .append (sound_topics (sound_table s.isWild (.ite (sound_table s.isWild .nil) .nil)))
    (sound_withSubscribers held_nil s.t)

theorem sound_unsubscribe (s : Left) (thrown : Option ℕ) : Sound [] (unsubscribe s thrown) := by
  refine .attempt (sound_topics (sound_table s.isWild (.append (.append ?_ ?_) ?_))) thrown
  · exact sound_withSubscribers held_topics s.t
  · exact sound_withSubscribers held_topics s.t
  · exact .ite (sound_table s.isWild .nil) .nil

theorem sound_remove (subs : List (Left × Option ℕ)) (cleanSession : Bool) :
    Sound [] (remove subs cleanSession) :=
  .append (.append (.flatMap fun s _ => sound_unsubscribe s.1 s.2) (.ite sound_withSessions .nil))
    sound_withClients

theorem sound_handleConnect (tried : List Bytes) (accepted : Option (Bool × Joined)) :
    Sound [] (handleConnect tried accepted) := by
  refine .append (.flatMap fun _ _ => sound_withClients) (.elim (fun a => ?_) accepted)
  have hjoin : Sound [] (join a.2) := by
    cases a.2 with
    | resumed => exact sound_withSessions
    | _ => exact .append sound_withSessions sound_withSessions
  have hresume : Sound [] (resume a.2) := by
    cases a.2 with
    | resumed subs subscribed wild =>
      exact .append (.flatMap fun s _ => sound_subscribe s)
        (sound_publishRetainedMessage subscribed wild)
    | _ => exact .nil
  exact .append (.append (.append (.append sound_withClients (.ite sound_withClients .nil)) hjoin)
    sound_withClients) hresume

theorem sound_handlePublish (p : Posted) (thrown : Option ℕ) (wild : List (Option Posted))
    (trash : Option Posted) : Sound [] (handlePublish p thrown wild trash) :=
  .append (.append (sound_publish p thrown)
    (sound_forTopics true (sound_publishTopic held_topics) wild))
    (.elim (sound_publishTopic held_nil) trash)

theorem sound_handleSubscribe (entries : List Requested) (subscribed : List (TopicRef × Found))
    (wild : List (TopicRef × List (Option Found))) :
    Sound [] (handleSubscribe entries subscribed wild) := by
  refine .append (.flatMap fun e _ => ?_) (sound_publishRetainedMessage subscribed wild)
  cases e with
  | refused => exact .nil
  | trash t => exact sound_withSubscribers held_nil t
  | entered s => exact sound_subscribe s

theorem sound_handleUnsubscribe (entries : List (Bool × Option Left)) :
    Sound [] (handleUnsubscribe entries) := by
  refine .flatMap fun e _ => ?_
  have htable : Sound [] (guard .topics [access (.table e.1)]) :=
    sound_topics (sound_table e.1 .nil)
  have htopic (s : Left) : Sound [] (withSubscribers s.t) := sound_withSubscribers held_nil s.t
  exact .append htable
    (.elim (fun s => .append (.append (htopic s) (htopic s)) (.ite htable .nil)) e.2)

theorem sound_str : Sound [] str :=
  .peek_cons _ (.peek_cons _ (.peek_cons _ (.peek_cons _ .nil)))

/-- Every call keeps the discipline. -/
theorem Call.sound (c : Call) : Sound [] c.ops := by
  cases c with
  | connect tried accepted => exact sound_handleConnect tried accepted
  | publish p thrown wild trash => exact sound_handlePublish p thrown wild trash
  | subscribe entries subscribed wild => exact sound_handleSubscribe entries subscribed wild
  | unsubscribe entries => exact sound_handleUnsubscribe entries
  | disconnect subs cleanSession => exact sound_remove subs cleanSession
  | channelDisconnected will subs cleanSession =>
    exact .append (.append (.elim (fun w => sound_publishWillMessage w.1 w.2.1 w.2.2) will)
      (sound_remove subs cleanSession)) sound_str
  | channelGone => exact sound_str

variable {ι : Type} {calls : ι → List (Call × Option ℕ)} {i j : ι}

theorem disciplined_serving (i : ι) :
    Disciplined Mutex.rank Member.mutex [] ((serving calls).thread i) :=
  (LockOp.Sound.flatMap fun c _ => c.1.sound.attempt c.2).disciplined

end Locking

open Locking LockOp

variable {ι : Type} [DecidableEq ι] {calls : ι → List (Call × Option ℕ)}
  {steps : List (Pool ι Ops (Mutex → Bool) × ι)} {q : Pool ι Ops (Mutex → Bool)}

/-- Whatever the threads are called with, and wherever calls throw, in every interleaving a
    thread takes a step for each of its operations. Who has something left to do waits, in
    the end, for a thread that can go on, or for one that looks for a packet id without
    end; and when all are done, no mutex is locked. -/
theorem calls_finish (h : (locking.interleave (serving calls)).Run steps q) :
    (∀ i, (steps.map Prod.snd).count i + (q.thread i).length = ((serving calls).thread i).length) ∧
      (∀ i, q.thread i ≠ [] → ∃ j, Relation.ReflTransGen q.Waits i j ∧
        ((∃ r, (locking.interleave (serving calls)).step q j = some r) ∨ Hangs (q.thread j))) ∧
      ((∀ i, q.thread i = []) → ∀ m, q.shared m = false) := by
  obtain ⟨held, hq⟩ := Guarding.run (fun _ => rfl) disciplined_serving h
  exact ⟨run_length h, fun i hi => hq.leads hi, hq.released⟩

/-- A client publishes to a wild topic, which has a subscriber without packet ids, while
    another one is lost. -/
def publishAndLose : Bool → List (Call × Option ℕ)
  | false => [(.publish ⟨0, []⟩ (some 2) [some ⟨1, [false]⟩] none, none)]
  | true => [(.channelDisconnected none [(⟨true, 2, true⟩, none)] true, none)]

/-- The client that is lost waits for the one that publishes, which hangs. -/
theorem calls_finish_publish : ∃ steps q,
    (locking.interleave (serving publishAndLose)).Run steps q ∧
      Hangs (q.thread false) ∧ (locking.interleave (serving publishAndLose)).step q true = none ∧
        ∃ j, Relation.ReflTransGen q.Waits true j ∧
          ((∃ r, (locking.interleave (serving publishAndLose)).step q j = some r) ∨
            Hangs (q.thread j)) := by
  have h : (locking.interleave (serving publishAndLose)).Run [(_, false), (_, false), (_, false),
      (_, false), (_, false), (_, false), (_, false)] _ :=
    .step (.step (.step (.step (.step (.step (.step .init rfl) rfl) rfl) rfl) rfl) rfl) rfl
  exact ⟨_, _, h, rfl, rfl, (calls_finish h).2.1 true (List.cons_ne_nil _ _)⟩

/-- In every interleaving, a thread that is to access a member has locked its mutex, and no
    other thread has, or is to access it. -/
theorem members_protected (h : (locking.interleave (serving calls)).Run steps q) {i : ι}
    {x : Member} (hi : (q.thread i).head? = some (.access x)) :
    q.shared x.mutex = true ∧ x.mutex ∈ owed (q.thread i) ∧
      ∀ j, x.mutex ∈ owed (q.thread j) ∨ (q.thread j).head? = some (.access x) → j = i := by
  obtain ⟨held, hq⟩ := Guarding.run (fun _ => rfl) disciplined_serving h
  refine ⟨hq.locked hi, hq.owed i ▸ hq.mem_held hi, fun j hj => ?_⟩
  rcases hj with hj | hj
  · exact hq.alone (hq.owed j ▸ hj) (hq.mem_held hi)
  · exact hq.exclusive hj hi

/-- A client publishes, while a channel without a client is gone. -/
def publishAndTrace : Bool → List (Call × Option ℕ)
  | false => [(.publish ⟨0, []⟩ none [] none, none)]
  | true => [(.channelGone, none)]

/-- The topics are accessed with their mutex locked, while `mqtt_server::str` looks at them. -/
theorem members_protected_publish : ∃ steps q,
    (locking.interleave (serving publishAndTrace)).Run steps q ∧
      (q.thread false).head? = some (.access .topics) ∧
      (q.thread true).head? = some (.peek .topics) ∧
      q.shared Member.topics.mutex = true ∧ Member.topics.mutex ∈ owed (q.thread false) ∧
        ∀ j, Member.topics.mutex ∈ owed (q.thread j) ∨
          (q.thread j).head? = some (.access .topics) → j = false := by
  have h : (locking.interleave (serving publishAndTrace)).Run [(_, false), (_, true)] _ :=
    .step (.step .init rfl) rfl
  exact ⟨_, _, h, rfl, rfl, members_protected h rfl⟩

end MqttBroker
