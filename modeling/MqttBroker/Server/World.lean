import Mathlib.Logic.Function.Basic
import MqttBroker.Lib.Prog
import MqttBroker.Object.Session
import MqttBroker.Object.Topic

/-!
# The state of the broker

`mqtt_server` with the objects it points to and the channel contexts of
Shan.Net. The tables nobody iterates over are functions. `_clients` is keyed by
the clients' own ids and the two topic tables by the topics' own filters, which
is how the only functions that insert into them key them. `topics false` is
`_topics` and `topics true` is `_wild_topics`; a topic is not shared between
tables, so a `topic_ptr` is the place of the topic in them (`TopicPtr`).

`log` is no part of the broker: it is the history of what the handlers did,
which they never read.

The functions of `mqtt_server` on the tables alone are functions on `World`
here. The handlers are programs (`Server`) over them.
-/

namespace MqttBroker

/-- A `tcp_channel_context_base`: its parameter, and whether it was closed. -/
structure Context where
  param : Option MqttClient
  closed : Bool

/-- A `topic_ptr`: the topic `_trash_topic`, or the one under a topic filter in
    `_topics` or `_wild_topics`. -/
inductive TopicPtr
  | trash
  | entry (isWild : Bool) (topicFilter : Bytes)
  deriving DecidableEq

/-- What is recorded of a run. -/
inductive Effect
  /-- A packet is written to a channel; `holder` is the parameter of its context. -/
  | write (channelId : ChannelId) (holder : Option MqttClient) (packet : Packet)
  /-- A handler takes a packet from the client. -/
  | handled (client : MqttClient) (packet : Packet)
  /-- `mqtt_client::publish` makes a PUBLISH for the client. -/
  | addressed (client : MqttClient) (packet : MqttPublish)
  /-- `handle_connect` gives the client its session, stored or new. -/
  | attached (client : MqttClient) (sessionPresent : Bool)
  /-- A message to retain is accepted; `known` when `_topics` has its topic. -/
  | retain (topicName payload : Bytes) (known : Bool)
  /-- `publish_will_message` is run for the client. -/
  | will (client : MqttClient)
  deriving DecidableEq

/-- The state of the broker. -/
structure World where
  contexts : ChannelId → Option Context
  clients : Keyed MqttClient.clientId
  sessions : Bytes → Option SessionRef
  topics : Bool → Keyed Topic.topicFilter
  trashTopic : Topic
  session : SessionRef → Session
  nextSession : SessionRef
  nextAddr : Nat
  log : List Effect

/-- A function of the broker: it may throw, with the text of the exception. -/
abbrev Server (α : Type) := Prog World String α

/-- `$sys/trash`. -/
def sysTrash : Bytes := ascii ['$', 's', 'y', 's', '/', 't', 'r', 'a', 's', 'h']

/-- `mqtt_server(tcp_server_p)`, before any channel is accepted. -/
def World.start : World where
  contexts := fun _ => none
  clients := Keyed.empty
  sessions := fun _ => none
  topics := fun _ => Keyed.empty
  trashTopic := Topic.new sysTrash
  session := fun _ => Session.new
  nextSession := 1
  nextAddr := 1
  log := []

namespace World

variable (w : World)

/-- Append to the history. -/
def record (e : Effect) : World := { w with log := w.log ++ [e] }

/-! ## Channels -/

/-- `ctx->param()`. -/
def param (k : ChannelId) : Option MqttClient := (w.contexts k).bind Context.param

/-- Change the context of a channel, if it is still there. -/
def modifyContext (k : ChannelId) (f : Context → Context) : World :=
  { w with contexts := Function.update w.contexts k <| (w.contexts k).map f }

/-- `ctx->param(client_ptr)`. -/
def setParam (k : ChannelId) (param : Option MqttClient) : World :=
  w.modifyContext k fun ctx => { ctx with param := param }

/-- `ctx->close()`. -/
def close (k : ChannelId) : World :=
  w.modifyContext k fun ctx => { ctx with closed := true }

/-- `ctx->write(packet)` and `write_channel(channel_id, packet)`. -/
def write (k : ChannelId) (packet : Packet) : World := w.record (.write k (w.param k) packet)

/-! ## Clients -/

/-- `mqtt_server::get_client_ptr`. -/
def getClientPtr (clientId : Bytes) : Option MqttClient := w.clients.find clientId

/-- `mqtt_server::reg_client_ptr`: `insert` does not replace an entry. -/
def regClientPtr (client : MqttClient) : World :=
  match w.getClientPtr client.clientId with
  | some _ => w
  | none => { w with clients := w.clients.put client }

/-- `mqtt_server::delete_client_ptr`. -/
def deleteClientPtr (clientId : Bytes) : World :=
  { w with clients := w.clients.erase clientId }

/-- The client registered under the id is removed, and its channel, if it is
    still there, is detached and closed. -/
def takeOver (clientId : Bytes) : World :=
  match w.getClientPtr clientId with
  | none => w
  | some old => ((w.deleteClientPtr clientId).setParam old.channelId none).close old.channelId

/-! ## Sessions -/

/-- `mqtt_server::get_session_ptr`. -/
def getSessionPtr (clientId : Bytes) : Option SessionRef := w.sessions clientId

/-- `mqtt_server::reg_session_ptr`: `insert` does not replace an entry. -/
def regSessionPtr (clientId : Bytes) (s : SessionRef) : World :=
  match w.getSessionPtr clientId with
  | some _ => w
  | none => { w with sessions := Function.update w.sessions clientId (some s) }

/-- `mqtt_server::delete_session_ptr`. -/
def deleteSessionPtr (clientId : Bytes) : World :=
  { w with sessions := Function.update w.sessions clientId none }

/-- `std::make_shared<session>()`, at the address `nextSession`. -/
def makeSession : World :=
  { w with
    session := Function.update w.session w.nextSession Session.new
    nextSession := w.nextSession + 1 }

/-- Change the session at the address `s`. -/
def modifySession (s : SessionRef) (f : Session → Session) : World :=
  { w with session := Function.update w.session s (f (w.session s)) }

/-- Give the client its session: the stored one, or a new one, which is stored.
    The flag is `session_present`. -/
def attachSession (client : MqttClient) : MqttClient × Bool × World :=
  let fresh := client.setSessionPtr w.nextSession
  if client.cleanSession then
    let w := w.deleteSessionPtr client.clientId
    (fresh, false, w.makeSession.regSessionPtr client.clientId fresh.session)
  else
    match w.getSessionPtr client.clientId with
    | some s => (client.setSessionPtr s, true, w)
    | none => (fresh, false, w.makeSession.regSessionPtr client.clientId fresh.session)

/-! ## Topics -/

/-- The topic at a place. -/
def topicAt : TopicPtr → Option Topic
  | .trash => some w.trashTopic
  | .entry isWild topicFilter => (w.topics isWild).find topicFilter

/-- Put a topic at a place of its filter. -/
def setTopic (p : TopicPtr) (t : Topic) : World :=
  match p with
  | .trash => { w with trashTopic := t }
  | .entry isWild _ =>
    { w with topics := Function.update w.topics isWild ((w.topics isWild).put t) }

/-- Change the topic at a place. -/
def modifyTopic (p : TopicPtr) (f : Topic → Topic) : World :=
  match w.topicAt p with
  | none => w
  | some t => w.setTopic p (f t)

/-- `_topics.erase(topic_filter)` and `_wild_topics.erase(topic_filter)`. -/
def eraseTopic (isWild : Bool) (topicFilter : Bytes) : World :=
  { w with topics := Function.update w.topics isWild ((w.topics isWild).erase topicFilter) }

/-- `mqtt_server::get_topic_ptr_to_subscribe`, for the topic at the place
    `.entry isWild topicFilter`. -/
def getTopicPtrToSubscribe (topicFilter : Bytes) (isWild : Bool) : World :=
  match w.topicAt (.entry isWild topicFilter) with
  | some _ => w
  | none => w.setTopic (.entry isWild topicFilter) (Topic.new topicFilter)

/-- `get_topic_ptr_to_subscribe` and the `subscribe` of the topic. -/
def subscribe (client : MqttClient) (topicFilter : Bytes) (maxQos : Nat) (isWild : Bool) : World :=
  (w.getTopicPtrToSubscribe topicFilter isWild).modifyTopic (.entry isWild topicFilter)
    fun t => t.subscribe client maxQos

/-- The `unsubscribe` of a topic, if it exists, and its removal when it becomes
    empty. -/
def unsubscribe (client : MqttClient) (topicFilter : Bytes) (isWild : Bool) : World :=
  match w.topicAt (.entry isWild topicFilter) with
  | none => w
  | some t =>
    if (t.unsubscribe client).empty then w.eraseTopic isWild topicFilter
    else w.setTopic (.entry isWild topicFilter) (t.unsubscribe client)

/-- `mqtt_server::unsubscribe_all`. -/
def unsubscribeAll (client : MqttClient) : World :=
  (w.session client.session).subscriptions.elems.foldl
    (fun w sub => w.unsubscribe client sub.topicFilter sub.isWild) w

end World

end MqttBroker
