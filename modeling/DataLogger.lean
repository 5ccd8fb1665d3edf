import DataLogger.Library.Machine
import DataLogger.Library.LinkedChain
import DataLogger.Queue
import DataLogger.QueueInvariant
import DataLogger.QueueRefinement
import DataLogger.QueueDrain
import DataLogger.QueueAllocFailure
import DataLogger.QueueCounter
import DataLogger.Library.Program
import DataLogger.MqttLibrary
import DataLogger.MqttWrapper
import DataLogger.MqttOwnership
import DataLogger.MqttContract
import DataLogger.MessageDelivery
import DataLogger.Library.Ddl
import DataLogger.Schema
import DataLogger.DeliveryToken
import DataLogger.Library.Framing
import DataLogger.Library.Handshake
import DataLogger.Library.HandshakeOrder
import DataLogger.MessageIds
import DataLogger.MqttPacket
import DataLogger.MqttProtocol
import DataLogger.PacketFormat
import DataLogger.PacketStream
import DataLogger.ProtocolDelivery
import DataLogger.Library.DoublyLinked
import DataLogger.LinkedList
import DataLogger.LinkedListRefinement
import DataLogger.LinkedListRuns
import DataLogger.SocketWrite
import DataLogger.WriteStream
