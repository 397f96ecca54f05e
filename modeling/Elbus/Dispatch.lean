import Elbus.Db

/-!
# Dispatch

The three routing macros of `broker.rs` (`send!`, `send_broadcast!`, `publish!`) read one
index under a short read lock, build one `FrameData` and offer it to every queue found.
Here that first half is an `Offer`: the frame and the queues it goes to. The enqueues
themselves, one await each, are steps of `Elbus.System`.

Both callers are modelled: `handle_reader`, which splits a routed body at its first NUL
(`parseTarget`) and passes the whole body with `payload_pos = |target| + 1`, and the
in-process `Client`, which passes the payload alone with `payload_pos = 0`.

* `offers_agree`: the two paths fail alike or reach the same recipients, each once, with
  frames that differ only in how the payload is stored.
* `FrameData.WellShaped`: the two shapes of a queued frame; `wireOffer_wellShaped` and
  `clientOffer_wellShaped` show that every frame built here has one.
-/

namespace Elbus

/-- One frame and the queues it is offered to. -/
structure Offer where
  frame : FrameData
  recipients : List ElbusClient

/-- The frame a routing macro builds. -/
def routed (kind : FrameKind) (client : ElbusClient) (topic header : Option Bytes) (buf : Bytes)
    (payloadPos : Nat) : FrameData :=
  { kind, sender := some client.name, topic, header, buf, payloadPos }

/-- `send!`: the client registered under the target, or `not_registered`. -/
def send (db : BrokerDb) (client : ElbusClient) (target : Bytes) (header : Option Bytes)
    (buf : Bytes) (payloadPos : Nat) : Except Error Offer :=
  match db.clients.lookup target with
  | some tx => .ok ⟨routed .message client none header buf payloadPos, [tx]⟩
  | none => .error ⟨.notRegistered⟩

/-- `send_broadcast!`: every client whose name the target mask matches. With none, no frame
is built and nothing is offered. -/
def sendBroadcast (db : BrokerDb) (client : ElbusClient) (target : Bytes)
    (header : Option Bytes) (buf : Bytes) (payloadPos : Nat) : Offer :=
  ⟨routed .broadcast client none header buf payloadPos, db.broadcasts.getClientsByMask target⟩

/-- `publish!`: every subscriber of a pattern matching the topic. -/
def publish (db : BrokerDb) (client : ElbusClient) (topic : Bytes) (header : Option Bytes)
    (buf : Bytes) (payloadPos : Nat) : Offer :=
  ⟨routed .publish client (some topic) header buf payloadPos,
    db.subscriptions.getSubscribers topic⟩

/-! ### The wire path -/

/-- `buf.splitn(2, |c| *c == 0)`: the bytes before the first NUL, and what follows that NUL
when there is one. -/
def splitTarget : Bytes → Bytes × Option Bytes
  | [] => ([], none)
  | b :: rest =>
    if b = 0 then ([], some rest) else ((b :: (splitTarget rest).1), (splitTarget rest).2)

/-- The target and `payload_pos` of a routed body. `Err` when the target is not UTF-8 or
there is no NUL ("broken frame"). -/
def parseTarget (buf : Bytes) : Except Error (Bytes × Nat) :=
  if utf8Valid (splitTarget buf).1 then
    match (splitTarget buf).2 with
    | some _ => .ok ((splitTarget buf).1, (splitTarget buf).1.length + 1)
    | none => .error ⟨.data⟩
  else .error ⟨.data⟩

/-- The three routed operations and the macro each runs. -/
inductive Route where
  | message
  | broadcast
  | publishTopic
deriving DecidableEq, Repr

/-- The routed operations among the `FrameOp`s; `Nop` falls through the inner `match`. -/
def FrameOp.route : FrameOp → Option Route
  | .message => some .message
  | .broadcast => some .broadcast
  | .publishTopic => some .publishTopic
  | _ => none

/-- The kind of the frame a route builds. -/
def Route.kind : Route → FrameKind
  | .message => .message
  | .broadcast => .broadcast
  | .publishTopic => .publish

/-- `send!`, `send_broadcast!` or `publish!`. -/
def Route.offer (db : BrokerDb) (client : ElbusClient) (target : Bytes) (header : Option Bytes)
    (buf : Bytes) (payloadPos : Nat) : Route → Except Error Offer
  | .message => send db client target header buf payloadPos
  | .broadcast => pure (sendBroadcast db client target header buf payloadPos)
  | .publishTopic => pure (publish db client target header buf payloadPos)

/-- The routing half of `handle_reader`: the body goes out whole, its payload at
`payload_pos`. -/
def wireOffer (db : BrokerDb) (client : ElbusClient) (r : Route) (buf : Bytes) :
    Except Error Offer := do
  let (target, payloadPos) ← parseTarget buf
  r.offer db client target none buf payloadPos

/-- Once the target is split off, the wire path is the route's macro on it. -/
theorem wireOffer_of_parseTarget {db : BrokerDb} {c : ElbusClient} {r : Route} {buf t : Bytes}
    {pos : Nat} (h : parseTarget buf = .ok (t, pos)) :
    wireOffer db c r buf = r.offer db c t none buf pos := by
  simp only [wireOffer, h, bind, Except.bind]

/-- Past the target, only `send!` fails: no client is registered under the target. -/
theorem wireOffer_error {db : BrokerDb} {c : ElbusClient} {r : Route} {buf t : Bytes} {pos : Nat}
    {e : Error} (hp : parseTarget buf = .ok (t, pos)) (h : wireOffer db c r buf = .error e) :
    r = .message ∧ e = ⟨.notRegistered⟩ ∧ db.clients.lookup t = none := by
  rw [wireOffer_of_parseTarget hp] at h
  cases r with
  | message =>
    simp only [Route.offer, send] at h
    cases hl : db.clients.lookup t <;> rw [hl] at h <;> cases h
    exact ⟨rfl, rfl, rfl⟩
  | broadcast => cases h
  | publishTopic => cases h

/-- `send!` offers its frame to exactly one queue. -/
theorem wireOffer_message {db : BrokerDb} {c : ElbusClient} {buf : Bytes} {o : Offer}
    (h : wireOffer db c .message buf = .ok o) : ∃ d, o.recipients = [d] := by
  rcases hp : parseTarget buf with e | ⟨t, pos⟩
  · simp [wireOffer, hp, bind, Except.bind] at h
  · rw [wireOffer_of_parseTarget hp] at h
    simp only [Route.offer, send] at h
    split at h <;> cases h
    exact ⟨_, rfl⟩

/-! ### The in-process path -/

/-- A routing call of the in-process `Client`. -/
inductive ClientSend where
  | send (target payload : Bytes)
  | zcSend (target header payload : Bytes)
  | sendBroadcast (target payload : Bytes)
  | publish (topic payload : Bytes)
deriving DecidableEq, Repr

/-- `Client::send`, `zc_send`, `send_broadcast`, `publish`: the payload is copied into the
frame's buffer with `payload_pos = 0`. -/
def clientOffer (db : BrokerDb) (client : ElbusClient) : ClientSend → Except Error Offer
  | .send target payload => Route.message.offer db client target none payload 0
  | .zcSend target header payload => Route.message.offer db client target (some header) payload 0
  | .sendBroadcast target payload => Route.broadcast.offer db client target none payload 0
  | .publish topic payload => Route.publishTopic.offer db client topic none payload 0

/-! ### Agreement of the two paths -/

theorem splitTarget_append_nul {t : Bytes} (ht : (0 : UInt8) ∉ t) (p : Bytes) :
    splitTarget (t ++ 0 :: p) = (t, some p) := by
  induction t with
  | nil => simp [splitTarget]
  | cons b t ih =>
    have hb : b ≠ 0 := fun h => ht (h ▸ List.mem_cons_self _ _)
    simp [splitTarget, hb, ih (fun h => ht (List.mem_cons_of_mem _ h))]

theorem parseTarget_append_nul {t : Bytes} (hu : utf8Valid t = true) (ht : (0 : UInt8) ∉ t)
    (p : Bytes) : parseTarget (t ++ 0 :: p) = .ok (t, t.length + 1) := by
  simp [parseTarget, splitTarget_append_nul ht, hu]

/-- The clients a route reaches on `t`: for `send!` the client registered under the target
(`not_registered` when there is none), for `send_broadcast!` every client the mask matches,
for `publish!` every subscriber of a pattern that matches the topic. -/
def Route.recipients (db : BrokerDb) (t : Bytes) : Route → Except Error (List ElbusClient)
  | .message => match db.clients.lookup t with
    | some c => .ok [c]
    | none => .error ⟨.notRegistered⟩
  | .broadcast => .ok (db.broadcasts.getClientsByMask t)
  | .publishTopic => .ok (db.subscriptions.getSubscribers t)

/-- An offer of one frame of the route's kind from `S`, on `t`, with payload `p` and no
header, to the recipients `rs`. -/
structure Offer.Carries (o : Offer) (r : Route) (S : ElbusClient) (t p : Bytes)
    (rs : List ElbusClient) : Prop where
  recipients : o.recipients = rs
  kind : o.frame.kind = r.kind
  sender : o.frame.sender = some S.name
  topic : o.frame.topic = if r = .publishTopic then some t else none
  header : o.frame.header = none
  payload : o.frame.payload = some p

theorem Route.recipients_nodup {db : BrokerDb} {t : Bytes} {r : Route} {rs : List ElbusClient}
    (h : r.recipients db t = .ok rs) : (rs.map ElbusClient.name).Nodup := by
  cases r <;> simp only [Route.recipients] at h
  case message =>
    split at h <;> cases h
    simp
  case broadcast =>
    cases h
    exact db.broadcasts.getClientsByMask_nodup t
  case publishTopic =>
    cases h
    exact db.subscriptions.getSubscribers_nodup t

/-- The offer of a route is its recipients, with the frame the macro builds. -/
theorem Route.offer_eq (db : BrokerDb) (S : ElbusClient) (t : Bytes) (header : Option Bytes)
    (buf : Bytes) (pos : Nat) (r : Route) :
    r.offer db S t header buf pos =
      (r.recipients db t).map fun rs =>
        ⟨routed r.kind S (if r = .publishTopic then some t else none) header buf pos, rs⟩ := by
  cases r <;> simp only [Route.offer, Route.recipients, send, sendBroadcast, publish, Route.kind]
  · split <;> rfl
  all_goals rfl

/-- The in-process call of a route on `(t, p)`. -/
def Route.call (r : Route) (t p : Bytes) : ClientSend :=
  match r with
  | .message => .send t p
  | .broadcast => .sendBroadcast t p
  | .publishTopic => .publish t p

theorem wireOffer_append_nul (db : BrokerDb) (S : ElbusClient) (r : Route) {t : Bytes} (p : Bytes)
    (hu : utf8Valid t = true) (ht : (0 : UInt8) ∉ t) :
    wireOffer db S r (t ++ 0 :: p) = (r.recipients db t).map fun rs =>
      ⟨routed r.kind S (if r = .publishTopic then some t else none) none (t ++ 0 :: p)
        (t.length + 1), rs⟩ := by
  simp only [wireOffer, parseTarget_append_nul hu ht p, bind, Except.bind, Route.offer_eq]

theorem clientOffer_call (db : BrokerDb) (S : ElbusClient) (r : Route) (t p : Bytes) :
    clientOffer db S (r.call t p) = (r.recipients db t).map fun rs =>
      ⟨routed r.kind S (if r = .publishTopic then some t else none) none p 0, rs⟩ := by
  cases r <;> simp only [Route.call, clientOffer, Route.offer_eq]

theorem carries_routed {r : Route} {S : ElbusClient} {t p buf : Bytes} {pos : Nat}
    {rs : List ElbusClient} (hpos : pos ≤ buf.length) (hp : buf.drop pos = p) :
    Offer.Carries ⟨routed r.kind S (if r = .publishTopic then some t else none) none buf pos, rs⟩
      r S t p rs :=
  ⟨rfl, rfl, rfl, rfl, rfl, by simp [FrameData.payload, routed, hpos, hp]⟩

/-- **The wire path and the in-process path agree** (§8, "sending a frame where the target
literally equals the receiver's name"). For every registry, sender, target `t` that is UTF-8
with no NUL, and payload `p` (any bytes), a routed frame with body `t ++ [0] ++ p` and the
in-process call on `(t, p)` both fail with the error of the route's lookup, or both offer one
frame of the route's kind from `S`, with topic `t` exactly for a publication, no header and
payload `p`, to the same recipients, none named twice. -/
theorem offers_agree (db : BrokerDb) (S : ElbusClient) (r : Route) {t : Bytes} (p : Bytes)
    (hu : utf8Valid t = true) (ht : (0 : UInt8) ∉ t) :
    (∀ e, wireOffer db S r (t ++ 0 :: p) = .error e ↔ r.recipients db t = .error e) ∧
    (∀ e, clientOffer db S (r.call t p) = .error e ↔ r.recipients db t = .error e) ∧
    ∀ rs, r.recipients db t = .ok rs → (rs.map ElbusClient.name).Nodup ∧
      (∃ o, wireOffer db S r (t ++ 0 :: p) = .ok o ∧ o.Carries r S t p rs) ∧
      (∃ o, clientOffer db S (r.call t p) = .ok o ∧ o.Carries r S t p rs) := by
  rw [wireOffer_append_nul db S r p hu ht, clientOffer_call]
  refine ⟨fun e => ?_, fun e => ?_, fun rs hrs => ⟨Route.recipients_nodup hrs, ?_, ?_⟩⟩
  · cases r.recipients db t <;> simp [Except.map]
  · cases r.recipients db t <;> simp [Except.map]
  · exact ⟨_, by rw [hrs]; rfl, carries_routed (by simp) (by simp)⟩
  · exact ⟨_, by rw [hrs]; rfl, carries_routed (by simp) (by simp)⟩

/-- `offers_agree` at a message from `A` to the unregistered `B`: both paths fail with
`not_registered`. -/
theorem offers_agree_unregistered :
    utf8Valid [0x42] = true ∧ (0 : UInt8) ∉ [0x42] ∧
      wireOffer BrokerDb.default ⟨[0x41], 0⟩ .message ([0x42] ++ 0 :: [0x68, 0x69]) =
        .error ⟨.notRegistered⟩ := by
  have h := (offers_agree BrokerDb.default ⟨[0x41], 0⟩ .message [0x68, 0x69]
    (t := [0x42]) (by decide) (by decide)).1 ⟨.notRegistered⟩
  exact ⟨by decide, by decide, h.2 rfl⟩

/-! ### The shapes of a queued frame -/

/-- The two shapes of a frame on a queue: a `Prepared` frame has no sender; a routed one has
a sender, a topic exactly when it is a publication, and its payload inside its buffer. -/
def FrameData.WellShaped (f : FrameData) : Prop :=
  match f.kind with
  | .prepared => f.sender = none
  | .publish => f.sender.isSome ∧ f.topic.isSome ∧ f.payloadPos ≤ f.buf.length
  | _ => f.sender.isSome ∧ f.topic = none ∧ f.payloadPos ≤ f.buf.length

/-- A well-shaped frame that is not `Prepared` has a sender and its payload inside `buf`. -/
theorem FrameData.WellShaped.routed {f : FrameData} (h : f.WellShaped) (hk : f.kind ≠ .prepared) :
    f.sender.isSome ∧ f.payloadPos ≤ f.buf.length := by
  unfold FrameData.WellShaped at h
  split at h
  · contradiction
  all_goals exact ⟨h.1, h.2.2⟩

theorem splitTarget_eq_some {buf t rest : Bytes} (h : splitTarget buf = (t, some rest)) :
    buf = t ++ 0 :: rest := by
  induction buf generalizing t with
  | nil => simp [splitTarget] at h
  | cons b buf ih =>
    simp only [splitTarget] at h
    split at h
    · simp only [Prod.mk.injEq, Option.some.injEq] at h
      obtain ⟨rfl, rfl⟩ := h
      simp_all
    · simp only [Prod.mk.injEq] at h
      obtain ⟨rfl, h2⟩ := h
      simp [← ih (t := (splitTarget buf).1) (Prod.ext rfl h2)]

/-- A parsed target leaves room for its NUL: `payload_pos <= buf.len()`. -/
theorem parseTarget_pos_le {buf t : Bytes} {pos : Nat} (h : parseTarget buf = .ok (t, pos)) :
    pos ≤ buf.length := by
  unfold parseTarget at h
  split at h
  · split at h
    · rename_i rest hrest
      cases h
      have hlen := congrArg List.length (splitTarget_eq_some (Prod.ext rfl hrest))
      simp only [List.length_append, List.length_cons] at hlen
      rw [hlen]
      exact Nat.add_le_add_left (Nat.le_add_left _ _) _
    · cases h
  · cases h

theorem offer_wellShaped {db : BrokerDb} {S : ElbusClient} {t : Bytes} {header : Option Bytes}
    {buf : Bytes} {pos : Nat} {r : Route} {o : Offer} (h : r.offer db S t header buf pos = .ok o)
    (hpos : pos ≤ buf.length) : o.frame.WellShaped := by
  rw [Route.offer_eq] at h
  cases hr : r.recipients db t <;> rw [hr] at h <;> cases h
  cases r <;> simp [FrameData.WellShaped, routed, Route.kind, hpos]

theorem wireOffer_wellShaped {db : BrokerDb} {S : ElbusClient} {r : Route} {buf : Bytes}
    {o : Offer} (h : wireOffer db S r buf = .ok o) : o.frame.WellShaped := by
  unfold wireOffer at h
  cases hp : parseTarget buf with
  | error e => simp [hp, bind, Except.bind] at h
  | ok tp =>
    simp only [hp, bind, Except.bind] at h
    exact offer_wellShaped h (parseTarget_pos_le hp)

theorem clientOffer_wellShaped {db : BrokerDb} {S : ElbusClient} {c : ClientSend} {o : Offer}
    (h : clientOffer db S c = .ok o) : o.frame.WellShaped := by
  cases c <;> simp only [clientOffer] at h <;> exact offer_wellShaped h (Nat.zero_le _)

end Elbus
