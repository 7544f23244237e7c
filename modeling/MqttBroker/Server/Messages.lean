import MqttBroker.Server.World

/-!
# Publishing to clients

The parts of `player/mqtt_client.cpp` and `object/topic.cpp` that write packets:
`mqtt_client::publish` gives a message a packet id of the session and files it
there until it is answered; `topic::publish` does so for every subscriber.
-/

namespace MqttBroker

open Prog

/-- `ctx->write(packet)` and `write_channel(channel_id, packet)`. -/
def write (k : ChannelId) (packet : Packet) : Server Unit := modify fun w => w.write k packet

/-- `session::new_packet_id` on the session at the address `s`. -/
def newPacketId (s : SessionRef) : Server UInt16 := do
  let w ← get
  match (w.session s).newPacketId with
  | none => hang
  | some (id, session) =>
    modify fun w => w.modifySession s fun _ => session
    pure id

/-- File a PUBLISH made for the client in its session, by its QoS. -/
def World.address (w : World) (client : MqttClient) (publish : MqttPublish) : World :=
  (w.record (.addressed client publish)).modifySession client.session fun s =>
    if publish.qos = 1 then s.addPublishForAck publish
    else if publish.qos = 2 then s.addPublishForRec publish
    else s

/-- `mqtt_client::publish`. -/
def MqttClient.publish (client : MqttClient) (maxQos : Nat) (retained : Bool)
    (packet : MqttPublish) : Server Unit := do
  let qos := min packet.qos maxQos
  let id ← newPacketId client.session
  let publish ← ofExcept (mqttPublish false qos retained packet.topicName id packet.payload)
  modify fun w => w.address client publish
  write client.channelId (.publish publish)

/-- The beginning of `topic::publish`: a message to retain is stored. -/
def World.storeRetained (w : World) (p : TopicPtr) (packet : MqttPublish) : World :=
  if packet.retain then w.modifyTopic p fun t => t.retain packet else w

/-- `topic::publish`, for the topic at a place. -/
def publishTopic (p : TopicPtr) (packet : MqttPublish) : Server Bool := do
  modify fun w => w.storeRetained p packet
  let w ← get
  let subscribers := (w.topicAt p).elim [] fun t => t.clients.elems
  forEach subscribers fun s => s.client.publish s.maxQos false packet
  pure !subscribers.isEmpty

/-- `topic::publish_retained`, for the topic at a place. -/
def publishRetained (p : TopicPtr) (k : ChannelId) (packet : MqttPublish) : Server Unit := do
  let w ← get
  match w.param k with
  | none => hang -- the comparison of the client ids reads through a null pointer
  | some client =>
    tryCatch (do
      match (w.topicAt p).bind fun t => t.find client.clientId with
      | none => throw "out_of_range"
      | some s => client.publish s.maxQos true packet)
      fun _ => throw
        "attempt to publish retained message to a client that is not subscribing."

end MqttBroker
