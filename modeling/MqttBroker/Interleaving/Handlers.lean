import MqttBroker.Interleaving.Shared
import MqttBroker.Lib.Threads
import MqttBroker.Server.Joining

/-!
# The handlers as threads

`handle_subscribe`, `handle_unsubscribe`, `handle_disconnect`,
`handle_channel_disconnected` and `handle_connect`, one lock at a time: an access
to `ctx->param()`, an operation on a table or on a topic, an iteration of
`unsubscribe_all`. Each handler has the places it can be at between its steps,
with the values of its local variables there.

A handler starts where it has a client, and `handle_connect` where the CONNECT is
accepted: what is before touches no table. What is written, the timers, the
acknowledgements and the retained messages that are sent at the end touch none
either, and of the will only what it does to the retained message of its topic is
done here. The subscriptions of a session are read when a loop over them begins.
-/

namespace MqttBroker

/-- A topic filter, and the `topic_ptr` that was obtained for it. -/
structure Obtained where
  isWild : Bool
  topicFilter : Bytes
  ref : TopicRef
  deriving DecidableEq

/-! ## The places -/

/-- `handle_subscribe`, with the entries of the SUBSCRIBE it has left, and the
    topics of those the SUBACK grants. -/
inductive Subscribing
  | entry (entries : List SubscribeEntry) (granted : List Obtained)
  /-- Before `topic::subscribe`, with `t_ptr`. -/
  | subscribe (entry : SubscribeEntry) (t : TopicRef) (entries : List SubscribeEntry)
      (granted : List Obtained)
  deriving DecidableEq

/-- `handle_unsubscribe`, with the entries of the UNSUBSCRIBE it has left. -/
inductive Unsubscribing
  | entry (entries : List UnsubscribeEntry)
  /-- Before `topic::unsubscribe`, with `t_ptr`. -/
  | unsubscribe (entry : UnsubscribeEntry) (t : TopicRef) (entries : List UnsubscribeEntry)
  /-- Before `topic::empty`. -/
  | empty (entry : UnsubscribeEntry) (t : TopicRef) (entries : List UnsubscribeEntry)
  /-- The topic was empty. -/
  | erase (entry : UnsubscribeEntry) (entries : List UnsubscribeEntry)
  deriving DecidableEq

/-- `handle_disconnect` and `handle_channel_disconnected`. The packet id of the will
    comes from the session. -/
inductive Leaving
  | disconnect (channelId : ChannelId)
  | channelDisconnected (channelId : ChannelId) (packetId : UInt16)
  /-- Before `ctx->param(nullptr)`. -/
  | detach (channelId : ChannelId) (client : MqttClient)
  /-- In `publish_will_message`, before `_topics.at`. -/
  | will (client : MqttClient) (packetId : UInt16)
  /-- In `publish_will_message`, before `topic::publish`, with `t_ptr`. -/
  | publish (client : MqttClient) (packetId : UInt16) (t : TopicRef)
  /-- In `unsubscribe_all`, with the subscriptions it has left. -/
  | unsubscribeAll (client : MqttClient) (subs : List Subscription)
  /-- Before `delete_client_ptr`. -/
  | deleteClient (client : MqttClient)
  | done
  deriving DecidableEq

/-- An accepted CONNECT: the client that was made for it, the id that the packet has
    after `check_integrity`, and whether `channel_context_of` finds the channel of
    the client that is displaced. -/
structure Newcomer where
  channelId : ChannelId
  client : MqttClient
  clientId : Bytes
  found : Bool
  deriving DecidableEq

/-- The CONNECT that is accepted, in a state of the broker. -/
def Joining.newcomer (j : Joining) (w : World) : Newcomer where
  channelId := j.channelId
  client := j.client w
  clientId := j.clientId
  found := (w.getClientPtr j.clientId).any fun old => (w.contexts old.channelId).isSome

/-- `handle_connect`, from where the CONNECT is accepted. -/
inductive Connecting
  | lookUp
  /-- Before `delete_client_ptr`, with `old_client_ptr`. -/
  | deleteClient (old : MqttClient)
  /-- Before `old_ctx->param(nullptr)`. -/
  | detach (old : MqttClient)
  | session
  /-- A new session is to be stored. -/
  | regSession
  /-- Before `reg_client_ptr`: the client has its session. -/
  | regClient (client : MqttClient) (sessionPresent : Bool)
  /-- Before `ctx->param(client_ptr)`. -/
  | setParam (client : MqttClient) (sessionPresent : Bool)
  /-- With the subscriptions that are left to be entered again. -/
  | resume (client : MqttClient) (subs : List Subscription)
  /-- Before `topic::subscribe`, with `t_ptr`. -/
  | subscribe (client : MqttClient) (sub : Subscription) (t : TopicRef) (subs : List Subscription)
  deriving DecidableEq

/-- A handler that runs, for a client where it has one. -/
inductive Handler
  | subscribing (client : MqttClient) (place : Subscribing)
  | unsubscribing (client : MqttClient) (place : Unsubscribing)
  | leaving (place : Leaving)
  | connecting (newcomer : Newcomer) (place : Connecting)
  deriving DecidableEq

/-! ## The steps -/

/-- The next step of `handle_subscribe`. -/
def Subscribing.next (client : MqttClient) (s : Shared) :
    Subscribing → Option (Subscribing × Shared)
  | entry [] _ => none
  | entry (e :: entries) granted => some <|
    if e.maxQos < 3 then
      if e.topicFilter.head? = some dollar then
        if client.admin = true ∧ e.topicFilter = sysTrash then
          (entry entries granted, { s with trashTopic := s.trashTopic.subscribe client 2 })
        else (entry entries granted, s)
      else
        let r := s.getTopicPtrToSubscribe e.topicFilter e.isWild
        (subscribe e r.1 entries granted, r.2)
    else (entry entries granted, s)
  | subscribe e t entries granted =>
    let s := s.modifyTopic t fun topic => topic.subscribe client e.maxQos
    some (entry entries (granted ++ [⟨e.isWild, e.topicFilter, t⟩]),
      s.modifySubscriptions client.session fun subs => subs.put ⟨e.topicFilter, e.maxQos, e.isWild⟩)

/-- The next step of `handle_unsubscribe`. -/
def Unsubscribing.next (client : MqttClient) (s : Shared) :
    Unsubscribing → Option (Unsubscribing × Shared)
  | entry [] => none
  | entry (e :: entries) => some <|
    match s.topics e.isWild e.topicFilter with
    | none => (entry entries, s)
    | some t => (unsubscribe e t entries, s)
  | unsubscribe e t entries =>
    let s := s.modifyTopic t fun topic => topic.unsubscribe client
    some (empty e t entries,
      s.modifySubscriptions client.session fun subs => subs.erase e.topicFilter)
  | empty e t entries => some (if (s.topic t).empty then erase e entries else entry entries, s)
  | erase e entries => some (entry entries, s.eraseTopic e.topicFilter e.isWild)

/-- The message of a will, if it can be made. -/
def MqttClient.willPublish (client : MqttClient) (packetId : UInt16) : Except String MqttPublish :=
  mqttPublish false client.willQos client.willRetain client.willTopic packetId client.willMessage

/-- The next step of `handle_disconnect` and `handle_channel_disconnected`. -/
def Leaving.next (s : Shared) : Leaving → Option (Leaving × Shared)
  | disconnect k => some <|
    match s.param k with
    | none => (done, s) -- an exception is thrown
    | some client => (detach k client, s)
  | detach k client =>
    some (unsubscribeAll client (s.subscriptions client.session).elems, s.setParam k none)
  | channelDisconnected k id => some <|
    match s.param k with
    | none => (done, s)
    | some client =>
      if client.willFlag then (will client id, s)
      else (unsubscribeAll client (s.subscriptions client.session).elems, s)
  | will client id => some <|
    match s.topics false client.willTopic with
    | none => (unsubscribeAll client (s.subscriptions client.session).elems, s)
    | some t => (publish client id t, s)
  | publish client id t =>
    let s := match client.willPublish id with
      | .ok message => if message.retain then s.modifyTopic t fun topic => topic.retain message else s
      | .error _ => s
    some (unsubscribeAll client (s.subscriptions client.session).elems, s)
  | unsubscribeAll client (sub :: subs) => some (unsubscribeAll client subs, s.unsubscribe client sub)
  | unsubscribeAll client [] =>
    some (deleteClient client,
      if client.cleanSession then s.deleteSessionPtr client.clientId else s)
  | deleteClient client => some (done, s.deleteClientPtr client.clientId)
  | done => none

/-- The next step of `handle_connect`. -/
def Connecting.next (n : Newcomer) (s : Shared) : Connecting → Option (Connecting × Shared)
  | lookUp => some <|
    match s.clients n.clientId with
    | none => (session, s)
    | some old => (deleteClient old, s)
  | deleteClient old =>
    some (if n.found then detach old else session, s.deleteClientPtr n.clientId)
  | detach old => some (session, s.setParam old.channelId none)
  | session => some <|
    if n.client.cleanSession then (regSession, s.deleteSessionPtr n.client.clientId)
    else match s.sessions n.client.clientId with
      | none => (regSession, s)
      | some r => (regClient (n.client.setSessionPtr r) true, s)
  | regSession =>
    some (regClient (n.client.setSessionPtr s.nextSession) false, s.regSessionPtr n.client.clientId)
  | regClient client present => some (setParam client present, s.regClientPtr client)
  | setParam client present =>
    some (resume client (if present then (s.subscriptions client.session).elems else []),
      s.setParam n.channelId (some client))
  | resume _ [] => none
  | resume client (sub :: subs) =>
    let r := s.getTopicPtrToSubscribe sub.topicFilter sub.isWild
    some (subscribe client sub r.1 subs, r.2)
  | subscribe client sub t subs =>
    some (resume client subs, s.modifyTopic t fun topic => topic.subscribe client sub.maxQos)

/-- The handlers. -/
def handlers : Threads Handler Shared where
  next
    | .subscribing client place, s =>
      (place.next client s).map fun r => (.subscribing client r.1, r.2)
    | .unsubscribing client place, s =>
      (place.next client s).map fun r => (.unsubscribing client r.1, r.2)
    | .leaving place, s => (place.next s).map fun r => (.leaving r.1, r.2)
    | .connecting n place, s => (place.next n s).map fun r => (.connecting n r.1, r.2)

end MqttBroker
