import MqttBroker.Server.Messages

/-!
# The handlers

`player/mqtt_server.cpp`: what the broker does with a packet of each type, and
when a channel is gone. Three things come from outside, and stand in the
arguments: the configuration (`Config`), the order in which an `unordered_map`
is iterated over (`Iteration`), and what `rand` returns (the pairs `draws`).
-/

namespace MqttBroker

open Prog

/-- The part of `g_cfg` the handlers read. -/
structure Config where
  protocolName : Bytes
  adminname : Bytes
  adminpass : Bytes
  authentication : Bool
  username : Bytes
  password : Bytes

/-- The order of an iteration over a table of topics. -/
structure Iteration where
  order : List Topic → List Topic
  perm : ∀ l, (order l).Perm l

/-- `mqtt_server::is_admin`. -/
def Config.isAdmin (cfg : Config) (username password : Bytes) : Bool :=
  username = cfg.adminname && password = cfg.adminpass

/-- `mqtt_server::authenticate`. -/
def Config.authenticate (cfg : Config) (username password : Bytes) : Bool :=
  cfg.username = username && cfg.password = password

variable (cfg : Config) (it : Iteration) (draws : List (Nat × Nat))

/-! ## CONNECT -/

/-- `std::isalnum`, in the C locale. -/
def isalnum (ch : UInt8) : Bool :=
  (0x30 ≤ ch && ch ≤ 0x39) || (0x41 ≤ ch && ch ≤ 0x5a) || (0x61 ≤ ch && ch ≤ 0x7a)

/-- `mqtt_server::generate_unique_id`: the first candidate that is not
    registered; `none` when `draws` has no such candidate. -/
def World.generateUniqueId (w : World) : Option Bytes :=
  (draws.map fun (a, b) => ascii (['@'] ++ Nat.toDigits 10 a ++ Nat.toDigits 10 b)).find?
    fun clientId => (w.getClientPtr clientId).isNone

/-- The special case of `check_integrity`: an empty client id is replaced. -/
def World.assignClientId (w : World) (packet : MqttConnect) : Option MqttConnect :=
  if packet.clientId.length = 0 then
    (w.generateUniqueId draws).map fun clientId => { packet with clientId := clientId }
  else some packet

/-- `mqtt_connect::check_integrity`: the return code, and the packet with the
    id it may have been given; `none` when no id is generated. -/
def World.checkIntegrity (w : World) (packet : MqttConnect) : Option (Nat × MqttConnect) :=
  if packet.protocolLevel ≠ 4 then some (0x01, packet)
  else if 23 < packet.clientId.length then some (0x02, packet)
  else if !packet.clientId.all isalnum then some (0x02, packet)
  else if packet.clientId.length = 0 ∧ packet.cleanSession = false then some (0x02, packet)
  else (w.assignClientId draws packet).map fun packet =>
    (if !packet.usernameFlag && packet.passwordFlag then 0x04 else 0x00, packet)

/-- The middle of `handle_connect`: a client of the same id is displaced, the
    client is given its session and registered, and the CONNACK is written.
    `clientId` is the id in the packet, which `client` was made before. -/
def World.establish (w : World) (k : ChannelId) (client : MqttClient) (clientId : Bytes) :
    MqttClient × Bool × World :=
  let r := (w.takeOver clientId).attachSession client
  let w := (r.2.2.record (.attached r.1 r.2.1)).regClientPtr r.1
  (r.1, r.2.1, (w.setParam k (some r.1)).write k (.connack (mqttConnack r.2.1 0x00)))

/-- The subscriptions of a stored session are entered again. -/
def World.resubscribe (w : World) (client : MqttClient) : World :=
  (w.session client.session).subscriptions.elems.foldl
    (fun w sub => w.subscribe client sub.topicFilter sub.maxQos sub.isWild) w

/-- Write packets to a channel in turn. -/
def World.writeAll (w : World) (k : ChannelId) (packets : List Packet) : World :=
  packets.foldl (fun w packet => w.write k packet) w

/-- `mqtt_publish::dup(true)`. -/
def MqttPublish.setDup (publish : MqttPublish) : MqttPublish := { publish with dup := true }

/-- The messages without an answer are written again. The objects are those of
    the session: `dup(true)` marks them there, too. -/
def World.redeliver (w : World) (client : MqttClient) : World :=
  let w := w.modifySession client.session fun s =>
    { s with publishForAck := s.publishForAck.map MqttPublish.setDup }
  let w := w.writeAll client.channelId
    ((w.session client.session).publishForAck.map Packet.publish)
  let w := w.modifySession client.session fun s =>
    { s with publishForRec := s.publishForRec.map MqttPublish.setDup }
  let w := w.writeAll client.channelId
    ((w.session client.session).publishForRec.map Packet.publish)
  w.writeAll client.channelId
    ((w.session client.session).packetIdForPubcomp.map fun id => .pubrel (mqttPubrel id))

/-- `mqtt_server::publish_retained_message`. -/
def publishRetainedMessage (k : ChannelId) (subscribedTopics subscribedWildTopics : List Bytes) :
    Server Unit := do
  forEach subscribedTopics fun topicFilter => do
    let w ← get
    match (w.topicAt (.entry false topicFilter)).bind Topic.retainedMessage with
    | none => pure ()
    | some message => publishRetained (.entry false topicFilter) k message
  forEach subscribedWildTopics fun topicFilter => do
    let w ← get
    forEach (it.order (w.topics false).elems) fun t =>
      match t.retainedMessage with
      | none => pure ()
      | some message =>
        if topicMatch topicFilter t.topicFilter then
          publishRetained (.entry true topicFilter) k message
        else pure ()

/-- The end of `handle_connect`, with a stored session. -/
def resume (k : ChannelId) (client : MqttClient) : Server Unit := do
  let w ← get
  let subscriptions := (w.session client.session).subscriptions.elems
  modify fun w => (w.resubscribe client).redeliver client
  publishRetainedMessage it k
    ((subscriptions.filter fun sub => !sub.isWild).map Subscription.topicFilter)
    ((subscriptions.filter fun sub => sub.isWild).map Subscription.topicFilter)

/-- `handle_connect`, from where the CONNECT is accepted. -/
def acceptConnect (k : ChannelId) (client : MqttClient) (clientId : Bytes) : Server Unit := do
  let w ← get
  let r := w.establish k client clientId
  modify fun _ => r.2.2
  if r.2.1 then resume it k r.1

/-- The beginning of `handle_connect`: the channel is closed on a second CONNECT
    and on another protocol, and a client is made. -/
def World.greet (w : World) (k : ChannelId) (packet : MqttConnect) : World :=
  let w := if (w.param k).isSome then w.close k else w
  let w := { w with nextAddr := w.nextAddr + 1 }
  if packet.protocolName ≠ cfg.protocolName then w.close k else w

/-- `mqtt_server::handle_connect`. Closing the channel does not end it. -/
def handleConnect (k : ChannelId) (packet : MqttConnect) : Server Unit := do
  let w ← get
  let client := mqttClient w.nextAddr packet k
  modify fun w => w.greet cfg k packet
  match w.checkIntegrity draws packet with
  | none => hang -- `generate_unique_id` goes on
  | some (returnCode, packet) =>
    if returnCode ≠ 0 then write k (.connack (mqttConnack false returnCode))
    else if cfg.isAdmin packet.username packet.password then
      acceptConnect it k (client.setAdmin true) packet.clientId
    else if cfg.authentication && !cfg.authenticate packet.username packet.password then
      write k (.connack (mqttConnack false 0x05))
    else acceptConnect it k client packet.clientId

/-! ## The other packets -/

/-- The client at the other end of the channel. -/
def agent (k : ChannelId) (packet : Packet) : Server MqttClient := do
  let w ← get
  match w.param k with
  | none => throw "First packet is not a CONNECT packet."
  | some client =>
    modify fun w => w.record (.handled client packet)
    pure client

/-- `_topics.at(topic_name)`. -/
def topicsAt (topicName : Bytes) : Server TopicPtr := do
  let w ← get
  match w.topicAt (.entry false topicName) with
  | none => throw "out_of_range"
  | some _ => pure (.entry false topicName)

/-- The loop of `handle_publish` over `_wild_topics`: every round overwrites
    `sent`. -/
def publishWild (packet : MqttPublish) (sent : Bool) (wildTopics : List Topic) : Server Bool :=
  foldEach wildTopics sent fun sent t =>
    if topicMatch t.topicFilter packet.topicName then
      publishTopic (.entry true t.topicFilter) packet
    else pure sent

/-- The message that a PUBLISH found no receiver. -/
def publishTrash (packet : MqttPublish) : Server Unit := do
  let w ← get
  let publish ← ofExcept
    (mqttPublish false 1 false w.trashTopic.topicFilter 0xffff packet.topicName)
  let _ ← publishTopic .trash publish

/-- Note that a message to retain is accepted. -/
def World.noteRetain (w : World) (retain : Bool) (topicName payload : Bytes) : World :=
  if retain then
    w.record (.retain topicName payload (w.topicAt (.entry false topicName)).isSome)
  else w

/-- `handle_publish`, from where the message is forwarded. -/
def forwardPublish (packet : MqttPublish) : Server Unit := do
  modify fun w => w.noteRetain packet.retain packet.topicName packet.payload
  let sent ← tryCatch (do publishTopic (← topicsAt packet.topicName) packet) fun _ => pure false
  let w ← get
  let sent ← publishWild packet sent (it.order (w.topics true).elems)
  if !sent then
    publishTrash packet

/-- The beginning of `handle_publish`: the broker answers as the receiver. -/
def World.receivePublish (w : World) (k : ChannelId) (sender : MqttClient)
    (packet : MqttPublish) : World :=
  if packet.qos = 1 then w.write k (.puback (mqttPuback packet.packetId))
  else if packet.qos = 2 then
    (w.modifySession sender.session fun s => s.addPacketIdForPubrel packet.packetId).write k
      (.pubrec (mqttPubrec packet.packetId))
  else w

/-- `mqtt_server::handle_publish`. -/
def handlePublish (k : ChannelId) (packet : MqttPublish) : Server Unit := do
  let sender ← agent k (.publish packet)
  modify fun w => w.receivePublish k sender packet
  forwardPublish it packet

/-- `mqtt_server::handle_puback`. -/
def handlePuback (k : ChannelId) (packet : MqttPuback) : Server Unit := do
  let receiver ← agent k (.puback packet)
  modify fun w => w.modifySession receiver.session fun s => s.releasePublishForAck packet.packetId

/-- `mqtt_server::handle_pubrec`. -/
def handlePubrec (k : ChannelId) (packet : MqttPubrec) : Server Unit := do
  let receiver ← agent k (.pubrec packet)
  modify fun w => w.modifySession receiver.session fun s =>
    (s.releasePublishForRec packet.packetId).addPacketIdForPubcomp packet.packetId
  write receiver.channelId (.pubrel (mqttPubrel packet.packetId))

/-- `mqtt_server::handle_pubrel`. -/
def handlePubrel (k : ChannelId) (packet : MqttPubrel) : Server Unit := do
  let receiver ← agent k (.pubrel packet)
  modify fun w => w.modifySession receiver.session fun s =>
    s.releasePacketIdForPubrel packet.packetId
  write receiver.channelId (.pubcomp (mqttPubcomp packet.packetId))

/-- `mqtt_server::handle_pubcomp`. -/
def handlePubcomp (k : ChannelId) (packet : MqttPubcomp) : Server Unit := do
  let receiver ← agent k (.pubcomp packet)
  modify fun w => w.modifySession receiver.session fun s =>
    s.releasePacketIdForPubcomp packet.packetId

/-- The SUBACK, and the topic filters entered in the two tables so far. -/
structure Granting where
  suback : MqttSuback
  subscribedTopics : List Bytes
  subscribedWildTopics : List Bytes

/-- Add a return code to the SUBACK. -/
def Granting.code (g : Granting) (returnCode : Nat) : Server Granting := do
  let suback ← ofExcept (g.suback.addReturnCode returnCode)
  pure { g with suback := suback }

/-- The loop body of `handle_subscribe`. -/
def subscribeEntry (sender : MqttClient) (g : Granting) (entry : SubscribeEntry) :
    Server Granting := do
  if entry.maxQos < 3 then
    if entry.topicFilter.head? = some dollar then
      if sender.admin then
        if entry.topicFilter = sysTrash then
          modify fun w => w.modifyTopic .trash fun t => t.subscribe sender 2
          g.code entry.maxQos
        else g.code 0x80
      else g.code 0x80
    else
      modify fun w => (w.subscribe sender entry.topicFilter entry.maxQos
        entry.isWild).modifySession sender.session fun s =>
          s.addSubscription entry.topicFilter entry.maxQos entry.isWild
      if entry.isWild then
        Granting.code { g with
          subscribedWildTopics := g.subscribedWildTopics ++ [entry.topicFilter] } entry.maxQos
      else
        Granting.code { g with
          subscribedTopics := g.subscribedTopics ++ [entry.topicFilter] } entry.maxQos
  else g.code 0x80

/-- `mqtt_server::handle_subscribe`. -/
def handleSubscribe (k : ChannelId) (packet : MqttSubscribe) : Server Unit := do
  let sender ← agent k (.subscribe packet)
  let g ← foldEach packet.topicFilters ⟨mqttSuback packet.packetId, [], []⟩ (subscribeEntry sender)
  write k (.suback g.suback)
  publishRetainedMessage it k g.subscribedTopics g.subscribedWildTopics

/-- The loop body of `handle_unsubscribe`. -/
def World.unsubscribeEntry (w : World) (sender : MqttClient) (entry : UnsubscribeEntry) : World :=
  match w.topicAt (.entry entry.isWild entry.topicFilter) with
  | none => w
  | some _ => (w.unsubscribe sender entry.topicFilter entry.isWild).modifySession sender.session
      fun s => s.deleteSubscription entry.topicFilter

/-- `mqtt_server::handle_unsubscribe`. -/
def handleUnsubscribe (k : ChannelId) (packet : MqttUnsubscribe) : Server Unit := do
  let sender ← agent k (.unsubscribe packet)
  modify fun w => packet.topicFilters.foldl (fun w entry => w.unsubscribeEntry sender entry) w
  write k (.unsuback (mqttUnsuback packet.packetId))

/-- `mqtt_server::handle_pingreq`. -/
def handlePingreq (k : ChannelId) (packet : MqttPingreq) : Server Unit := do
  let _ ← agent k (.pingreq packet)
  write k (.pingresp mqttPingresp)

/-- What `handle_disconnect` and `handle_channel_disconnected` remove of a
    client: its entries in the topics, its session if it is a clean one, and its
    registration. -/
def World.remove (w : World) (client : MqttClient) : World :=
  let w := w.unsubscribeAll client
  let w := if client.cleanSession then w.deleteSessionPtr client.clientId else w
  w.deleteClientPtr client.clientId

/-- `mqtt_server::handle_disconnect`. -/
def handleDisconnect (k : ChannelId) (packet : MqttDisconnect) : Server Unit := do
  let sender ← agent k (.disconnect packet)
  modify fun w => (w.setParam k none).remove sender

/-! ## Lost channels -/

/-- `mqtt_server::publish_will_message`. -/
def publishWillMessage (client : MqttClient) : Server Unit := do
  modify fun w => w.record (.will client)
  if client.willFlag then
    modify fun w => w.noteRetain client.willRetain client.willTopic client.willMessage
    tryCatch (do
      let p ← topicsAt client.willTopic
      let id ← newPacketId client.session
      let publish ← ofExcept (mqttPublish false client.willQos client.willRetain client.willTopic
        id client.willMessage)
      let _ ← publishTopic p publish)
      fun _ => pure ()

/-- `mqtt_server::handle_channel_disconnected`. -/
def handleChannelDisconnected (k : ChannelId) : Server Unit := do
  let w ← get
  match w.param k with
  | none => pure ()
  | some client =>
    publishWillMessage client
    modify fun w => w.remove client

end MqttBroker
