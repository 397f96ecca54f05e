import Elbus.Keyed

/-!
# The three indexes

`BrokerDb` keeps three indexes of registered clients: `clients`, a `HashMap` from names to
handles; `broadcasts`, a `BroadcastMap` that resolves masks over client names (segments
separated by `.`, `?` for one segment, a final `*` for the rest); and `subscriptions`, a
`SubMap` from topic patterns to subscribers (`/`, `+` and a final `#`).

Modelled from the spec (§4.2): the `submap` crate is not among the sources. Both maps are
modelled by what they answer rather than by their trees. A `BroadcastMap` is the set of
handles registered under their names (the broker always passes `client.name` as the
name), a `SubMap` the set of registered clients, each with the set of patterns it holds.
Their sets are `HashSet`s of handles compared by name, so both are `KeyedList`s.

* `mem_getClientsByMask`, `mem_getSubscribers`: what a lookup returns.
* `getClientsByMask_nodup`, `getSubscribers_nodup`: a lookup names each client once.
-/

namespace Elbus

/-- `ElbusClient`: a client's name and the sending half `tx` of its queue, named by the
task that made the channel. `tp`, `source` and `port` are read only by the administration
RPC and are left out. -/
structure ElbusClient where
  name : Bytes
  tx : Nat
deriving DecidableEq, Repr

/-! ### Masks -/

/-- The wildcard syntax of one index: `separator`, `match_any` and `wildcard`. -/
structure MaskSyntax where
  separator : UInt8
  matchAny : Bytes
  wildcard : Bytes

/-- `BroadcastMap::new().separator('.').match_any("?").wildcard("*")`. -/
def broadcastSyntax : MaskSyntax := ⟨0x2E, [0x3F], [0x2A]⟩

/-- `SubMap::new().separator('/').match_any("+").wildcard("#")`. -/
def subscriptionSyntax : MaskSyntax := ⟨0x2F, [0x2B], [0x23]⟩

/-- Segment-wise matching: a final wildcard matches whatever segments remain, zero
included; any other segment matches one segment, itself or anything when it is the
single-segment wildcard. -/
def segmentsMatch (any wild : Bytes) : List Bytes → List Bytes → Bool
  | [], ns => ns.isEmpty
  | m :: ms, ns =>
    if ms.isEmpty && m == wild then true
    else
      match ns with
      | [] => false
      | n :: ns => (m == any || m == n) && segmentsMatch any wild ms ns

/-- `mask` matches the literal `name` in the given syntax (case-sensitive, byte-wise). -/
def maskMatches (syn : MaskSyntax) (mask name : Bytes) : Bool :=
  segmentsMatch syn.matchAny syn.wildcard (mask.splitOn syn.separator) (name.splitOn syn.separator)

/-! ### The indexes -/

/-- `HashMap<String, BrokerClient>`, keyed by the client's name. -/
abbrev ClientMap := KeyedList ElbusClient ElbusClient.name

/-- `BroadcastMap<BrokerClient>`: the handles registered under their names. -/
abbrev BroadcastMap := KeyedList ElbusClient ElbusClient.name

/-- `SubMap<BrokerClient>`: the registered clients, each with the patterns it holds. -/
abbrev SubMap := KeyedList (ElbusClient × List Bytes) (fun e => e.1.name)

namespace BroadcastMap

/-- `BroadcastMap::register_client(&client.name, &client)`. -/
def registerClient (m : BroadcastMap) (c : ElbusClient) : BroadcastMap := KeyedList.insert m c

/-- `BroadcastMap::unregister_client(&client.name, &client)`. -/
def unregisterClient (m : BroadcastMap) (c : ElbusClient) : BroadcastMap :=
  KeyedList.erase m c.name

/-- `BroadcastMap::get_clients_by_mask`: every handle whose name the mask matches. -/
def getClientsByMask (m : BroadcastMap) (mask : Bytes) : List ElbusClient :=
  m.items.filter (fun c => maskMatches broadcastSyntax mask c.name)

theorem mem_getClientsByMask {m : BroadcastMap} {mask : Bytes} {c : ElbusClient} :
    c ∈ m.getClientsByMask mask ↔ c ∈ m.items ∧ maskMatches broadcastSyntax mask c.name := by
  simp [getClientsByMask]

/-- A mask resolves to a set: no name twice. -/
theorem getClientsByMask_nodup (m : BroadcastMap) (mask : Bytes) :
    ((m.getClientsByMask mask).map ElbusClient.name).Nodup :=
  m.nodup.sublist ((List.filter_sublist _).map _)

end BroadcastMap

namespace SubMap

/-- `SubMap::register_client`: a new client holds no pattern. -/
def registerClient (m : SubMap) (c : ElbusClient) : SubMap := KeyedList.insert m (c, [])

/-- Change the pattern set of a registered client; `false` for a client that is not
registered. -/
def updatePatterns (m : SubMap) (c : ElbusClient) (g : List Bytes → List Bytes) : Bool × SubMap :=
  if c.name ∈ KeyedList.keys m then
    (true, KeyedList.modify m c.name (fun e => (e.1, g e.2)) (fun _ => rfl))
  else (false, m)

/-- `SubMap::subscribe`: add the pattern to a registered client's set. -/
def subscribe (m : SubMap) (topic : Bytes) (c : ElbusClient) : Bool × SubMap :=
  m.updatePatterns c (·.insert topic)

/-- `SubMap::unsubscribe`: drop the pattern from a registered client's set. -/
def unsubscribe (m : SubMap) (topic : Bytes) (c : ElbusClient) : Bool × SubMap :=
  m.updatePatterns c (·.filter (· != topic))

/-- `SubMap::unregister_client`: the client and all its patterns go. -/
def unregisterClient (m : SubMap) (c : ElbusClient) : SubMap := KeyedList.erase m c.name

/-- `SubMap::get_subscribers`: every client holding a pattern that matches the topic. -/
def getSubscribers (m : SubMap) (topic : Bytes) : List ElbusClient :=
  (m.items.filter fun e => e.2.any (fun p => maskMatches subscriptionSyntax p topic)).map Prod.fst

theorem mem_getSubscribers {m : SubMap} {topic : Bytes} {c : ElbusClient} :
    c ∈ m.getSubscribers topic ↔
      ∃ ps, (c, ps) ∈ m.items ∧ ∃ p ∈ ps, maskMatches subscriptionSyntax p topic := by
  simp [getSubscribers]

/-- A topic resolves to a set: no name twice. -/
theorem getSubscribers_nodup (m : SubMap) (topic : Bytes) :
    ((m.getSubscribers topic).map ElbusClient.name).Nodup := by
  rw [getSubscribers, List.map_map]
  exact m.nodup.sublist ((List.filter_sublist _).map _)

theorem mem_registerClient {m : SubMap} {h c : ElbusClient} {ps : List Bytes} :
    (c, ps) ∈ (m.registerClient h).items ↔
      (c, ps) ∈ m.items ∨ (c = h ∧ ps = [] ∧ h.name ∉ KeyedList.keys m) := by
  simp [registerClient, KeyedList.mem_insert, and_assoc]

/-- A change of patterns touches only the client's own entry. -/
theorem mem_updatePatterns {m : SubMap} {h c : ElbusClient} {g : List Bytes → List Bytes}
    {ps : List Bytes} :
    (c, ps) ∈ (m.updatePatterns h g).2.items ↔
      ∃ qs, (c, qs) ∈ m.items ∧ ps = if c.name = h.name then g qs else qs := by
  unfold updatePatterns
  split
  · simp only [KeyedList.mem_modify]
    constructor
    · rintro ⟨⟨c', qs⟩, hmem, heq⟩
      by_cases hk : c'.name = h.name <;> simp only [hk, if_true, if_false, Prod.mk.injEq] at heq <;>
        obtain ⟨rfl, rfl⟩ := heq <;> exact ⟨_, hmem, by simp [hk]⟩
    · rintro ⟨qs, hmem, rfl⟩
      exact ⟨(c, qs), hmem, by by_cases hk : c.name = h.name <;> simp [hk]⟩
  · rename_i hnot
    have hne : ∀ {qs}, (c, qs) ∈ m.items → c.name ≠ h.name :=
      fun hmem hk => hnot (KeyedList.mem_keys.2 ⟨_, hmem, hk⟩)
    exact ⟨fun hmem => ⟨ps, hmem, by rw [if_neg (hne hmem)]⟩,
      by rintro ⟨qs, hmem, rfl⟩; rwa [if_neg (hne hmem)]⟩

theorem mem_unregisterClient {m : SubMap} {h c : ElbusClient} {ps : List Bytes} :
    (c, ps) ∈ (m.unregisterClient h).items ↔ (c, ps) ∈ m.items ∧ c.name ≠ h.name := by
  simp [unregisterClient, KeyedList.mem_erase]

end SubMap

end Elbus
