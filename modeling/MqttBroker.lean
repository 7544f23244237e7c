import MqttBroker.Lib.Machine
import MqttBroker.Lib.Threads
import MqttBroker.Lib.Prog
import MqttBroker.Lib.Keyed
import MqttBroker.Lib.Search
import MqttBroker.Lib.Levels
import MqttBroker.Lib.Utf8
import MqttBroker.Lib.Reader
import MqttBroker.Packet.Basic
import MqttBroker.Packet.Decode
import MqttBroker.Packet.Layout
import MqttBroker.Codec.Read
import MqttBroker.Codec.Framing
import MqttBroker.Codec.Chunking
import MqttBroker.Codec.Decoded
import MqttBroker.Codec.Write
import MqttBroker.Codec.RoundTrip
import MqttBroker.Codec.Headers
import MqttBroker.Codec.Strings
import MqttBroker.Codec.Requests
import MqttBroker.Codec.Connect
import MqttBroker.Codec.Marks
import MqttBroker.Codec.Received
import MqttBroker.Object.Session
import MqttBroker.Object.FreshIds
import MqttBroker.Object.Topic
import MqttBroker.Object.Matching
import MqttBroker.Object.Filters
import MqttBroker.Server.World
import MqttBroker.Server.Messages
import MqttBroker.Server.Handlers
import MqttBroker.Server.Broker
import MqttBroker.Server.Tables
import MqttBroker.Server.Frames
import MqttBroker.Server.Joining
import MqttBroker.Server.Steps
import MqttBroker.Access.Refusals
import MqttBroker.Access.Strangers
import MqttBroker.Directory.Basic
import MqttBroker.Directory.Connect
import MqttBroker.Directory.View
import MqttBroker.Directory.Refine
import MqttBroker.Directory.Runs
import MqttBroker.Directory.Admissions
import MqttBroker.Directory.LiveIds
import MqttBroker.Directory.Takeover
import MqttBroker.Directory.Owners
import MqttBroker.Directory.Leaving
import MqttBroker.Directory.Backing
import MqttBroker.Delivery.Outbound
import MqttBroker.Delivery.Marks
import MqttBroker.Delivery.Releases
import MqttBroker.Delivery.PacketIds
import MqttBroker.Delivery.Sizes
import MqttBroker.Delivery.Topics
import MqttBroker.Delivery.Posting
import MqttBroker.Delivery.Storing
import MqttBroker.Delivery.SysTopics
import MqttBroker.Delivery.Retained
import MqttBroker.Delivery.Answers
import MqttBroker.Delivery.DeadTopics
import MqttBroker.Delivery.Keeping
import MqttBroker.Delivery.Sends
import MqttBroker.Delivery.FanOut
import MqttBroker.Delivery.Inbound
import MqttBroker.Delivery.Notices
import MqttBroker.Delivery.WillFanOut
import MqttBroker.Delivery.Granting
import MqttBroker.Delivery.Grants
import MqttBroker.Delivery.Resuming
import MqttBroker.Delivery.Outcomes
import MqttBroker.Directory.CleanSessions
import MqttBroker.Delivery.Origins
import MqttBroker.Delivery.TopicFilters
import MqttBroker.Delivery.Wire
import MqttBroker.Delivery.Streams
import MqttBroker.Access.Closings
import MqttBroker.Delivery.Conversation
import MqttBroker.Delivery.Acknowledging
import MqttBroker.Delivery.Solicited
import MqttBroker.Delivery.Unsubscribing
import MqttBroker.Delivery.GrantedQos
import MqttBroker.Delivery.Wills
import MqttBroker.Access.Presence
import MqttBroker.Delivery.Subscribed
import MqttBroker.Interleaving.Shared
import MqttBroker.Interleaving.Handlers
import MqttBroker.Interleaving.Sequential
import MqttBroker.Interleaving.Publishing
import MqttBroker.Interleaving.Serial
import MqttBroker.Interleaving.Subscriptions
import MqttBroker.Interleaving.Succession
import MqttBroker.Interleaving.Locks
