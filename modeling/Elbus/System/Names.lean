import Elbus.System.Registry
import Elbus.Fifo

/-!
# Client names over runs

`handle_peer` accepts a name only when it is UTF-8, not empty and does not start with `.`;
`Broker::register_client`, through which the broker's own clients register, checks nothing.
`NameInv` says that every connection past its handshake holds a name the handshake accepted.

* `peer_names_valid`: in every reachable state each handle in `clients` that belongs to a
  connection carries an accepted name, so `.broker` and the empty name are held only by
  in-process clients.
* `fifo_leading_space_internal`: a FIFO line that starts with a space, unless it is a
  publication, is addressed to the empty name, and the broker's client dispatches it to
  in-process clients only.
* `listClients_sound`: the `list_clients` method reports the name of every registered task
  once, in increasing byte order.
-/

namespace Elbus

/-- The checks `handle_peer` makes on a name. -/
def NameAccepted (name : Bytes) : Prop :=
  utf8Valid name = true ∧ name ≠ [] ∧ name.head? ≠ some 0x2E

/-- The stages of a task that holds the name it registered or tried to register: all but
the stage before the handshake and the stage of a refused one. -/
def Stage.hasName : Stage → Bool
  | .start | .rejected => false
  | _ => true

theorem Stage.hasName_of_inClients {st : Stage} (h : st.inClients) : st.hasName := by
  cases st <;> simp_all [Stage.inClients, Stage.hasName]

/-- Every connection that holds a name holds one its handshake accepted. -/
def NameInv (s : Sys) : Prop :=
  ∀ a, (s.actors a).kind = .peer → (s.actors a).stage.hasName → NameAccepted (s.actors a).name

namespace NameInv

variable {s s' : Sys} {a : Nat}

theorem init (W : Wire) (q : Nat) (peers : Nat → Option Bytes) :
    NameInv (Sys.init W q peers) := by
  intro a
  simp only [Sys.init]
  split <;> simp [Actor.fresh, Stage.hasName]

theorem setActor {x : Actor} (h : NameInv s)
    (hx : x.kind = .peer → x.stage.hasName → NameAccepted x.name) : NameInv (s.setActor a x) := by
  intro b
  by_cases hb : b = a
  · subst hb
    rw [Sys.setActor_actors_self]
    exact hx
  · rw [Sys.setActor_actors, if_neg hb]
    exact h b

/-- A change of a task that keeps its kind and name, to a stage that holds a name only when the
old one did. -/
theorem setActor_same {x : Actor} (h : NameInv s) (hk : x.kind = (s.actors a).kind)
    (hn : x.name = (s.actors a).name) (hst : x.stage.hasName → (s.actors a).stage.hasName) :
    NameInv (s.setActor a x) :=
  h.setActor fun hp hx => hn ▸ h a (hk ▸ hp) (hst hx)

theorem internal {x : Actor} (h : NameInv s) (hk : x.kind = .internal) :
    NameInv (s.setActor a x) :=
  h.setActor fun hp => absurd (hk.symm.trans hp) nofun

theorem db {db : BrokerDb} (h : NameInv s) : NameInv { s with db } := h

theorem enqueue {d : Nat} {it : QItem} (h : NameInv s) : NameInv (s.enqueue d it) := h

theorem handle {fr : OpFrame} (h : NameInv s) (hl : (s.actors a).stage.hasName) :
    NameInv (s.handle a fr) := by
  obtain ⟨-, -, hf⟩ := Sys.handle_frame (s := s) (a := a) fr
  obtain ⟨-, st, pc, sub, _, -, -, he⟩ := Sys.handle_actor (s := s) (a := a) fr
  intro b
  by_cases hb : b = a
  · subst hb
    rw [he]
    exact fun hk _ => h b hk hl
  · rw [hf b hb]
    exact h b

/-- Only a handshake names a connection, and only with a name it accepted; every other step
keeps a connection's name, and leaves a stage that holds one only from another. -/
theorem step {act : Action} (h : NameInv s) (hr : RegistryInv s) (hs : s.step act = some s') :
    NameInv s' := by
  cases act with
  | greet a fs =>
    have hn := Sys.peerGreet_name hs
    obtain ⟨-, -, ⟨_, _, rfl⟩ | ⟨_, _, _, rfl⟩⟩ := Sys.peerGreet_eq hs
    · exact h.setActor fun _ hn => by simp [Stage.hasName] at hn
    · exact h.setActor fun _ _ => by simpa using hn (by simp)
  | register a fs =>
    obtain ⟨-, hst, ⟨-, _, rfl⟩ | ⟨-, _, rfl | rfl⟩⟩ := Sys.peerRegister_eq hs
    · exact h.setActor_same rfl rfl fun _ => by simp [hst, Stage.hasName]
    all_goals exact h.db.setActor_same rfl rfl fun _ => by simp [hst, Stage.hasName]
  | attach a name =>
    obtain ⟨hk, -, ⟨-, rfl⟩ | ⟨-, rfl⟩⟩ := Sys.attach_eq hs
    exacts [h.db.internal hk, h.internal hk]
  | read a fault =>
    obtain ⟨-, hl, -, ⟨_, rfl⟩ | ⟨_, rfl⟩ | ⟨fr, _, -, rfl⟩⟩ := Sys.read_eq hs
    · exact h.setActor_same rfl rfl fun _ => by simp [hl, Stage.hasName]
    · exact h.setActor (h a)
    · refine NameInv.handle ?_ (by simp [hl, Stage.hasName])
      exact h.setActor (h a)
  | call a op =>
    obtain ⟨hk, -, -, ⟨_, _, -, rfl⟩ | ⟨_, -, rfl⟩ | ⟨_, _, -, -, rfl⟩⟩ := Sys.call_eq hs
    · rw [Sys.clientTopics_eq]
      refine NameInv.internal (NameInv.db (h.internal ?_)) ?_ <;> simpa using hk
    all_goals refine NameInv.internal (h.internal ?_) ?_ <;> simpa using hk
  | deliver a =>
    obtain ⟨-, -, -, -, -, -, ⟨-, rfl⟩ | ⟨-, rfl⟩⟩ := Sys.deliver_eq hs
    exacts [h.enqueue.setActor (h a), h.setActor (h a)]
  | ack a =>
    obtain ⟨_, _, hpc, ⟨-, rfl⟩ | ⟨-, rfl⟩⟩ := Sys.ack_eq hs
    · exact h.enqueue.setActor (h a)
    · exact h.setActor_same rfl rfl fun _ => by simp [hr.live a (by simp [hpc]), Stage.hasName]
  | cancel a =>
    obtain ⟨-, -, rfl⟩ := Sys.cancel_eq hs
    exact h.setActor (h a)
  | detach a =>
    obtain ⟨hk, -, -, rfl⟩ := Sys.detach_eq hs
    exact h.internal hk
  | unregister a =>
    obtain ⟨hst, rfl⟩ | ⟨hst, rfl⟩ | ⟨hst, rfl⟩ := Sys.unregister_eq hs <;>
      exact h.db.setActor_same rfl rfl fun _ => by simp [hst, Stage.hasName]
  | recv a =>
    obtain ⟨-, -, -, ⟨-, rfl⟩ | ⟨-, -, ⟨-, -, rfl⟩ | ⟨-, rfl⟩⟩⟩ := Sys.recv_eq hs <;>
      exact h.setActor (h a)
  | write a fault =>
    obtain ⟨-, -, -, ⟨-, rfl⟩ | ⟨-, -, rfl⟩⟩ := Sys.write_eq hs <;> exact h.setActor (h a)
  | flush a ok =>
    obtain ⟨-, ⟨-, rfl⟩ | ⟨-, rfl⟩⟩ := Sys.flush_eq hs <;> exact h.setActor (h a)
  | abort a =>
    obtain ⟨-, -, -, rfl⟩ := Sys.abort_eq hs
    exact h.setActor (h a)
  | dropRx a =>
    obtain ⟨-, -, rfl⟩ := Sys.dropRx_eq hs
    exact h.setActor (h a)

theorem of_reachable (hs : Reachable s) : NameInv s := by
  induction hs with
  | init W q peers => exact init W q peers
  | step act hr hs ih => exact ih.step (RegistryInv.of_reachable hr) hs

/-- A handle in `clients` that belongs to a connection carries an accepted name. -/
theorem registered (h : NameInv s) (hr : RegistryInv s) {c : ElbusClient}
    (hc : c ∈ s.db.clients.items) (hk : (s.actors c.tx).kind = .peer) : NameAccepted c.name := by
  obtain ⟨hst, hcl⟩ := (hr.clients c).1 hc
  rw [hcl]
  exact h c.tx hk (Stage.hasName_of_inClients hst)

end NameInv

/-- **Connections hold the names their handshake accepted.** In every reachable state each
handle in `clients` that belongs to a connection carries a name that is UTF-8, not empty and
does not start with `.`. So `.broker`, under which `Broker::new` registers the broker's RPC
client, and the empty name can be held only by in-process clients. -/
theorem peer_names_valid {s : Sys} (hs : Reachable s) {c : ElbusClient}
    (hc : c ∈ s.db.clients.items) (hk : (s.actors c.tx).kind = .peer) :
    utf8Valid c.name = true ∧ c.name ≠ [] ∧ c.name.head? ≠ some 0x2E :=
  (NameInv.of_reachable hs).registered (RegistryInv.of_reachable hs) hc hk

/-- A peer that greets and sends the name `a` is registered under it, and the name passes. -/
theorem peer_names_valid_handshake :
    utf8Valid [0x61] = true ∧
    ∀ W : Wire, ∃ s, Reachable s ∧ s.wire = W ∧ (⟨[0x61], 0⟩ : ElbusClient) ∈ s.db.clients.items ∧
      (s.actors 0).kind = .peer ∧
      (utf8Valid [0x61] = true ∧ ([0x61] : Bytes) ≠ [] ∧ ([0x61] : Bytes).head? ≠ some 0x2E) :=
  ⟨by decide, fun W => by
    have h₁ := Sys.peerGreet_ok (s := Sys.init W 1 fun a =>
        if a = 0 then some (greeting W ++ le16 1 ++ [0x61]) else none) (a := 0) [0x61] [] rfl rfl
      (List.append_nil _).symm (by decide) (by decide) (by decide) (by decide)
    obtain ⟨s₁, h₁, hw, hk, hst, hcl, hdb⟩ : ∃ s₁, (Sys.init W 1 fun a =>
        if a = 0 then some (greeting W ++ le16 1 ++ [0x61]) else none).step (.greet 0 []) =
          some s₁ ∧ s₁.wire = W ∧ (s₁.actors 0).kind = .peer ∧ (s₁.actors 0).stage = .named ∧
        s₁.client 0 = ⟨[0x61], 0⟩ ∧ s₁.db = .default :=
      ⟨_, h₁, rfl, rfl, rfl, rfl, rfl⟩
    have hfree : (s₁.actors 0).name ∉ s₁.db.clients.keys := by
      rw [show (s₁.actors 0).name = [0x61] from congrArg ElbusClient.name hcl, hdb]
      decide
    obtain ⟨s₂, h₂, hw₂, hdb₂, hk₂⟩ : ∃ s₂, s₁.step (.register 0 []) = some s₂ ∧
        s₂.wire = s₁.wire ∧ s₂.db = s₁.db.registered (s₁.client 0) ∧ (s₂.actors 0).kind = .peer :=
      ⟨_, Sys.peerRegister_ok hk hst hfree, rfl, rfl, by simpa using hk⟩
    have hs : Reachable s₂ := .step (.register 0 []) (.step (.greet 0 []) (.init ..) h₁) h₂
    have hc : (⟨[0x61], 0⟩ : ElbusClient) ∈ s₂.db.clients.items := by
      rw [hdb₂, hcl, hdb]
      decide
    exact ⟨s₂, hs, hw₂.trans hw, hc, hk₂, peer_names_valid hs hc hk₂⟩⟩

/-! ### The FIFO's leading space -/

/-- A message goes to the one client registered under its target. -/
theorem clientOffer_send_recipients {db : BrokerDb} {S : ElbusClient} {t p : Bytes} {o : Offer}
    (h : clientOffer db S (.send t p) = .ok o) :
    ∃ c, o.recipients = [c] ∧ c ∈ db.clients.items ∧ c.name = t := by
  simp only [clientOffer, Route.offer, send] at h
  split at h
  · rename_i c hc
    cases h
    exact ⟨c, rfl, KeyedList.lookup_eq_some.1 hc⟩
  · cases h

/-- **A FIFO line with a leading space reaches in-process clients only.** `send_fifo_cmd`
splits the untrimmed line, so a line that starts with a space and is not a publication is
addressed to the empty name: a message, or an RPC notification or call. When the broker's
client sends it, as a message, in any reachable state, the dispatch it starts goes only to
in-process clients: no connection can hold the empty name. A notification or call goes to the
RPC layer, which is not among the sources. -/
theorem fifo_leading_space_internal {s : Sys} (hs : Reachable s) {rest : List Char}
    {cmd : FifoCmd} {a : Nat} (h : sendFifoCmd (' ' :: rest) = .ok cmd) :
    cmd.addressee = none ∨ cmd.addressee = some [] ∧ ∀ cs s', cmd.clientSend = some cs →
      s.step (.call a (.route cs)) = some s' → ∀ f rs strict ack,
        (s'.actors a).pc = .sending f rs strict ack → ∀ r ∈ rs, (s.actors r.tx).kind = .internal := by
  rcases sendFifoCmd_leading_space h with hn | ⟨he, hsend⟩
  · exact .inl hn
  refine .inr ⟨he, fun cs s' hcs hc f rs strict ack hpc r hr => ?_⟩
  obtain ⟨p, rfl⟩ := hsend cs hcs
  have hc : s.call a (.route (.send [] p)) = some s' := hc
  obtain ⟨-, -, hidle, ⟨_, _, htop, -⟩ | ⟨_, -, rfl⟩ | ⟨c, o, hop, ho, rfl⟩⟩ := Sys.call_eq hc
  · cases htop
  · simp [hidle] at hpc
  · cases hop
    obtain ⟨d, hd, hdc, hdn⟩ := clientOffer_send_recipients ho
    rw [Sys.setActor_actors_self, hd] at hpc
    obtain ⟨-, rfl, -, -⟩ := Pc.sending.inj hpc
    obtain rfl := List.mem_singleton.1 hr
    cases hk : (s.actors r.tx).kind with
    | internal => rfl
    | peer =>
      exact absurd hdn
        ((NameInv.of_reachable hs).registered (RegistryInv.of_reachable hs) hdc hk).2.1

/-- An in-process client holds the empty name, and the broker's client sends it the line
` x`: the dispatch goes to that client. -/
theorem fifo_leading_space_internal_attached :
    sendFifoCmd " x".toList = .ok (.send [] ['x']) ∧
    ∀ W : Wire, ∃ s, (Sys.init W 2 fun _ => none).run
        [.attach 0 [], .attach 1 (utf8 ".broker".toList)] = some s ∧
      (s.step (.call 1 (.route (.send [] [0x78])))).isSome ∧
      ((FifoCmd.send [] ['x']).addressee = none ∨ (FifoCmd.send [] ['x']).addressee = some [] ∧
        ∀ cs s', (FifoCmd.send [] ['x']).clientSend = some cs →
          s.step (.call 1 (.route cs)) = some s' → ∀ f rs strict ack,
            (s'.actors 1).pc = .sending f rs strict ack →
              ∀ r ∈ rs, (s.actors r.tx).kind = .internal) :=
  ⟨rfl, fun W => by
    have hr : (Sys.init W 2 fun _ => none).run
        [.attach 0 [], .attach 1 (utf8 ".broker".toList)] = some _ := rfl
    exact ⟨_, hr, rfl, fifo_leading_space_internal (Reachable.run (.init W 2 fun _ => none) hr)
      (show sendFifoCmd (' ' :: ['x']) = .ok (.send [] ['x']) from rfl)⟩⟩

/-! ### `list_clients` -/

/-- `Ord for [u8]`, which `str::cmp` is: the first byte that differs decides, and a proper
prefix comes first. -/
def cmpBytes : Bytes → Bytes → Ordering
  | [], [] => .eq
  | [], _ :: _ => .lt
  | _ :: _, [] => .gt
  | x :: xs, y :: ys =>
    if x.toNat < y.toNat then .lt else if y.toNat < x.toNat then .gt else cmpBytes xs ys

theorem cmpBytes_swap : ∀ x y : Bytes, cmpBytes y x = (cmpBytes x y).swap
  | [], [] | [], _ :: _ | _ :: _, [] => rfl
  | x :: xs, y :: ys => by
    simp only [cmpBytes]
    split_ifs <;> first | omega | rfl | exact cmpBytes_swap xs ys

theorem eq_of_cmpBytes_eq : ∀ {x y : Bytes}, cmpBytes x y = .eq → x = y
  | [], [], _ => rfl
  | x :: xs, y :: ys, h => by
    simp only [cmpBytes] at h
    split_ifs at h with h₁ h₂
    rw [eq_of_cmpBytes_eq h, UInt8.toNat.inj (by omega : x.toNat = y.toNat)]

theorem cmpBytes_trans : ∀ {x y z : Bytes}, (cmpBytes x y).isLE → (cmpBytes y z).isLE →
    (cmpBytes x z).isLE
  | [], _, [], _, _ | [], _, _ :: _, _, _ => rfl
  | _ :: _, [], _, h, _ | _ :: _, _ :: _, [], _, h => by simp [cmpBytes, Ordering.isLE] at h
  | x :: xs, y :: ys, z :: zs, h₁, h₂ => by
    simp only [cmpBytes] at h₁ h₂ ⊢
    split_ifs at h₁ h₂ ⊢ <;>
      first | omega | exact cmpBytes_trans h₁ h₂ | rfl | exact absurd h₁ (by decide) |
        exact absurd h₂ (by decide)

/-- The names `list_clients` reports: one `ClientInfo` per handle in `clients`, after
`clients.sort()`, whose `Ord` compares the names. -/
def listClients (db : BrokerDb) : List Bytes :=
  (db.clients.items.map (·.name)).mergeSort fun x y => (cmpBytes x y).isLE

theorem mem_listClients {db : BrokerDb} {n : Bytes} : n ∈ listClients db ↔ n ∈ db.clients.keys :=
  (List.mergeSort_perm _ _).mem_iff

/-- The report is strictly increasing: sorted, and the names in `clients` are distinct. -/
theorem listClients_lt (db : BrokerDb) :
    (listClients db).Pairwise fun x y => cmpBytes x y = .lt := by
  have htotal : ∀ x y : Bytes, ((cmpBytes x y).isLE || (cmpBytes y x).isLE) = true := fun x y => by
    rw [cmpBytes_swap x y]
    cases cmpBytes x y <;> rfl
  have hs : (listClients db).Pairwise fun x y => (cmpBytes x y).isLE :=
    List.sorted_mergeSort (fun x y z => @cmpBytes_trans x y z) htotal _
  have hn : (listClients db).Nodup := (List.mergeSort_perm _ _).nodup_iff.2 db.clients.nodup
  refine (hs.and hn).imp fun ⟨hle, hne⟩ => ?_
  revert hle
  cases hc : cmpBytes _ _
  exacts [fun _ => rfl, fun _ => absurd (eq_of_cmpBytes_eq hc) hne, fun h => absurd h (by decide)]

/-- **`list_clients` reports the registered tasks.** In every reachable state the method lists
each name in `clients` once, in increasing byte order, and a name is listed exactly when a
task holds a registration of it. -/
theorem listClients_sound {s : Sys} (hs : Reachable s) :
    (listClients s.db).Pairwise (fun x y => cmpBytes x y = .lt) ∧
      ∀ n, n ∈ listClients s.db ↔ ∃ a, (s.actors a).stage.inClients ∧ (s.actors a).name = n := by
  refine ⟨listClients_lt s.db, fun n => ?_⟩
  rw [mem_listClients, ((RegistryInv.of_reachable hs).keys_iff n).1]
  constructor
  · rintro ⟨c, ⟨hst, hcl⟩, rfl⟩
    exact ⟨c.tx, hst, by rw [hcl]; rfl⟩
  · rintro ⟨a, hst, rfl⟩
    exact ⟨s.client a, ⟨hst, rfl⟩, rfl⟩

/-- Two in-process clients, whose entries in `clients` are out of byte order: the report holds
both names. -/
theorem listClients_sound_two :
    cmpBytes [0x61] [0x62] = .lt ∧
    ∀ W : Wire, ∃ s, (Sys.init W 1 fun _ => none).run [.attach 0 [0x61], .attach 1 [0x62]] =
        some s ∧ s.db.clients.keys = [[0x62], [0x61]] ∧
      (listClients s.db).Pairwise (fun x y => cmpBytes x y = .lt) ∧
      ∀ n, n ∈ listClients s.db ↔ ∃ a, (s.actors a).stage.inClients ∧ (s.actors a).name = n :=
  ⟨rfl, fun W => by
    have hr : (Sys.init W 1 fun _ => none).run [.attach 0 [0x61], .attach 1 [0x62]] = some _ :=
      rfl
    exact ⟨_, hr, rfl, listClients_sound (Reachable.run (.init W 1 fun _ => none) hr)⟩⟩

end Elbus
