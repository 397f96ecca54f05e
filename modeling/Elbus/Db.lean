import Elbus.Index

/-!
# The registry

`BrokerDb` holds the three indexes, and two functions write all of them:
`register_client`, which runs under the `clients` write lock, and `unregister_client`,
which takes the three locks one after another (subscriptions, broadcasts, clients).
`unregister_client` is therefore split into its three critical sections here, so that
`Elbus.System` can interleave other tasks between them.

* `registerClient_ok_iff`, `registerClient_error_iff`: registration succeeds exactly on a
  vacant name, and then installs the handle in all three indexes with `.broker/warn`.
-/

namespace Elbus

/-- `BROKER_WARN_TOPIC`, the bytes of `.broker/warn`. -/
def brokerWarnTopic : Bytes :=
  [0x2E, 0x62, 0x72, 0x6F, 0x6B, 0x65, 0x72, 0x2F, 0x77, 0x61, 0x72, 0x6E]

/-- `BrokerDb`: the name map and the two pattern indexes. -/
structure BrokerDb where
  clients : ClientMap
  broadcasts : BroadcastMap
  subscriptions : SubMap

namespace BrokerDb

/-- `BrokerDb::default`: three empty indexes. -/
def default : BrokerDb := ⟨∅, ∅, ∅⟩

/-- `BrokerDb::register_client`. On a vacant entry the handle goes into `broadcasts`, then
into `subscriptions` with the subscription `.broker/warn`, then into `clients`; an occupied
entry is `busy`. -/
def registerClient (db : BrokerDb) (client : ElbusClient) : Except Error BrokerDb :=
  if client.name ∈ db.clients.keys then .error ⟨.busy⟩
  else
    .ok { clients := KeyedList.insert db.clients client
          broadcasts := db.broadcasts.registerClient client
          subscriptions :=
            ((db.subscriptions.registerClient client).subscribe brokerWarnTopic client).2 }

/-- The first critical section of `unregister_client`: `subscriptions`. -/
def unregisterSubscriptions (db : BrokerDb) (client : ElbusClient) : BrokerDb :=
  { db with subscriptions := db.subscriptions.unregisterClient client }

/-- The second critical section of `unregister_client`: `broadcasts`. -/
def unregisterBroadcasts (db : BrokerDb) (client : ElbusClient) : BrokerDb :=
  { db with broadcasts := db.broadcasts.unregisterClient client }

/-- The third critical section of `unregister_client`: `clients.remove(&client.name)`. -/
def unregisterClients (db : BrokerDb) (client : ElbusClient) : BrokerDb :=
  { db with clients := KeyedList.erase db.clients client.name }

/-- `BrokerDb::unregister_client`, the three critical sections in the order of the source. -/
def unregisterClient (db : BrokerDb) (client : ElbusClient) : BrokerDb :=
  ((db.unregisterSubscriptions client).unregisterBroadcasts client).unregisterClients client

/-- The state `register_client` leaves on a vacant name. -/
def registered (db : BrokerDb) (client : ElbusClient) : BrokerDb :=
  { clients := KeyedList.insert db.clients client
    broadcasts := db.broadcasts.registerClient client
    subscriptions := ((db.subscriptions.registerClient client).subscribe brokerWarnTopic client).2 }

theorem registerClient_ok_iff {db db' : BrokerDb} {client : ElbusClient} :
    db.registerClient client = .ok db' ↔
      client.name ∉ db.clients.keys ∧ db' = db.registered client := by
  unfold registerClient registered
  split <;> simp_all [eq_comm]

theorem registerClient_error_iff {db : BrokerDb} {client : ElbusClient} {e : Error} :
    db.registerClient client = .error e ↔ client.name ∈ db.clients.keys ∧ e = ⟨.busy⟩ := by
  unfold registerClient
  split <;> simp_all [eq_comm]

/-- After registration the name is taken. -/
theorem name_mem_registered (db : BrokerDb) (client : ElbusClient) :
    client.name ∈ (db.registered client).clients.keys := by
  simp only [registered, KeyedList.keys_insert]
  split <;> simp_all

end BrokerDb

end Elbus
