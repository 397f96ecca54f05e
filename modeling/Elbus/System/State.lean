import Elbus.Peer
import Elbus.Writer

/-!
# The broker's tasks and their shared state

`broker.rs` runs, per connection, a reader task (`handle_peer` and then `handle_reader`) and
a writer task, and beside them any number of in-process `Client`s. They share the three
indexes of `BrokerDb`, each behind its own lock, and one bounded `async_channel` per
registered client. This module gives the state of that system; `Elbus.System.Step` gives its
steps, one per critical section or await.

* A queue is not stored by itself: `Sys.log` lists every frame any queue accepted, in
  order, and `Sys.queue` is one queue's part of it. The receiver side of each queue (how
  many frames were taken, whether the receiver is gone) lives with its owner.
* Each queued frame carries a `Tag` saying which op of which task put it there. Tags,
  `Actor.opLog`, `Actor.sent` and `Actor.subLog` are bookkeeping for the proofs; no step
  reads them.
* `Actor.sent` records what each `send!` came to, by the step that saw it: the lookup that
  found no client, or the send that the target's queue refused or took.
* `held` is the meaning of a client's subscriptions: the patterns that its own changes,
  applied in order from `.broker/warn`, leave.
-/

namespace Elbus

/-! ### Queued frames -/

/-- Which op put a frame on a queue: the task, the number of that op among the task's ops
(counting from one), and whether the frame is the op's ack. -/
structure Tag where
  src : Nat
  op : Nat
  ack : Bool
deriving DecidableEq, Repr

/-- A frame on a queue, with its tag. -/
structure QItem where
  frame : FrameData
  tag : Tag
deriving DecidableEq, Repr

/-- One accepted `tx.send`: the queue (named by the task that owns it) and the frame. -/
structure Delivery where
  dest : Nat
  item : QItem
deriving DecidableEq, Repr

/-- The order of the frames one task puts on one queue: by op, and within an op the
dispatched frame before the ack. -/
def Tag.rank (t : Tag) : Nat := 2 * t.op + if t.ack then 1 else 0

/-- The frame of `send_ack!`: `OP_ACK`, the request's op id and the status byte. -/
def ackFrame (W : Wire) (opId : Bytes) (code : UInt8) : FrameData :=
  { kind := .prepared, sender := none, topic := none, header := none,
    buf := W.opAck :: (opId ++ [code]), payloadPos := 0 }

/-! ### Subscriptions as a log -/

/-- A change to the patterns of one client. -/
inductive SubOp where
  | subscribe (topic : Bytes)
  | unsubscribe (topic : Bytes)
deriving DecidableEq, Repr

/-- `SubMap::subscribe` or `SubMap::unsubscribe`. -/
def SubOp.run (m : SubMap) (c : ElbusClient) : SubOp → Bool × SubMap
  | .subscribe t => m.subscribe t c
  | .unsubscribe t => m.unsubscribe t c

/-- Whether a pattern is held after a log of changes, newest first, applied from
`{.broker/warn}`: the newest change to the pattern decides, and without one the pattern is
held exactly when it is `.broker/warn`. -/
def held : List SubOp → Bytes → Bool
  | [], p => p == brokerWarnTopic
  | .subscribe t :: log, p => t == p || held log p
  | .unsubscribe t :: log, p => t != p && held log p

/-- A loop over topics under the `subscriptions` write lock: each topic in order while
`ok` lets it through, the change applied and logged. Returns the map, the log, and whether
every topic went through. -/
def applyTopics (mk : Bytes → SubOp) (c : ElbusClient) (ok : Bytes → SubMap → Bool) :
    SubMap × List SubOp → List Bytes → SubMap × List SubOp × Bool
  | (m, log), [] => (m, log, true)
  | (m, log), t :: ts =>
    if ok t m then applyTopics mk c ok (((mk t).run m c).2, mk t :: log) ts else (m, log, false)

/-! ### Tasks -/

/-- The two kinds of task that register a client. -/
inductive ActorKind where
  /-- a connection: `handle_peer` with its reader loop and its writer task -/
  | peer
  /-- an in-process `Client` -/
  | internal
deriving DecidableEq, Repr

/-- Where a task is in its life. -/
inductive Stage where
  /-- not registered yet -/
  | start
  /-- a peer whose handshake has read a valid name: `register_client` is next -/
  | named
  /-- its handshake or its registration failed: it never held a registration -/
  | rejected
  /-- registered, but `handle_peer` returned before its reader loop: nothing unregisters it -/
  | abandoned
  /-- registered; the reader loop or the `Client` runs -/
  | live
  /-- `unregister_client` has begun; nothing removed yet -/
  | leaving
  /-- the `subscriptions` section of `unregister_client` is done -/
  | leftSubscriptions
  /-- the `broadcasts` section is done too -/
  | leftBroadcasts
  /-- unregistered -/
  | gone
deriving DecidableEq, Repr

/-- The stages whose handle is in `clients`: from registration to the last section of
`unregister_client`. -/
def Stage.inClients : Stage → Bool
  | .abandoned | .live | .leaving | .leftSubscriptions | .leftBroadcasts => true
  | _ => false

/-- The stages whose handle is in `broadcasts`. -/
def Stage.inBroadcasts : Stage → Bool
  | .abandoned | .live | .leaving | .leftSubscriptions => true
  | _ => false

/-- The stages whose handle is in `subscriptions`. -/
def Stage.inSubscriptions : Stage → Bool
  | .abandoned | .live | .leaving => true
  | _ => false

/-- The stages after the reader loop (or the `Client`) has ended. -/
def Stage.readerDone : Stage → Bool
  | .leaving | .leftSubscriptions | .leftBroadcasts | .gone => true
  | _ => false

/-- Where a task is in its current op. -/
inductive Pc where
  /-- between ops -/
  | idle
  /-- `tx.send(frame).await` to each of `pending` in turn. For `send!` (`strict`) a failed
  send ends the dispatch with its error; the fan-outs go on. `ack` is the op id when the
  request asked for an ack. -/
  | sending (frame : FrameData) (pending : List ElbusClient) (strict : Bool) (ack : Option Bytes)
  /-- `send_ack!(code)` -/
  | acking (opId : Bytes) (code : UInt8)
deriving DecidableEq, Repr

/-- The ack of an op that asked for one, or nothing. -/
def Pc.finish : Option Bytes → UInt8 → Pc
  | none, _ => .idle
  | some opId, code => .acking opId code

/-- A dispatch to `rs`: with no recipient left, straight to the ack with `ok`. -/
def Pc.start (f : FrameData) (strict : Bool) (ack : Option Bytes) (ok : UInt8) :
    List ElbusClient → Pc
  | [] => Pc.finish ack ok
  | rs => .sending f rs strict ack

/-- The writer task of a connection. -/
inductive WriterState where
  /-- not spawned yet, or ended: its receiver is dropped -/
  | stopped
  /-- at `rx.recv().await` -/
  | waiting
  /-- the non-empty chunks of the current frame still to write, then `flush!` -/
  | writing (chunks : List Bytes)
deriving DecidableEq, Repr

/-- What a task remembers of an op it began, for the proofs. -/
inductive OpInfo where
  /-- an op frame read by `handle_reader` -/
  | wire (opId : Bytes) (op : FrameOp) (qos : QoS)
  /-- a call of an in-process `Client` -/
  | call
deriving DecidableEq, Repr

/-- What a `send!` came to: no client is registered under its target, or the target's queue
`dest` refused the frame (its receiver is gone) or took it. -/
inductive Outcome where
  | notRegistered
  | refused (dest : Nat)
  | accepted (dest : Nat)
deriving DecidableEq, Repr

/-- One task: its registration, its reader side (the peer's input, or the `Client`'s
calls), its op in progress, its writer task, and the receiver side of its queue. -/
structure Actor where
  kind : ActorKind
  stage : Stage
  /-- the name it registered (or tried to) -/
  name : Bytes
  /-- a peer: the bytes it has still to send -/
  input : Bytes
  /-- a peer: what the handshake wrote to it -/
  hello : Bytes
  pc : Pc
  writer : WriterState
  /-- a peer: what the writer task wrote to it -/
  written : Bytes
  /-- how many frames the receiver has taken from the queue -/
  taken : Nat
  /-- the receiver is dropped: every send fails -/
  closed : Bool
  /-- the ops begun, newest first -/
  opLog : List OpInfo
  /-- what each `send!` it ran came to, with the number of its op, newest first -/
  sent : List (Nat × Outcome)
  /-- the pattern changes applied for it since its registration, newest first -/
  subLog : List SubOp

/-- A task before it runs. -/
def Actor.fresh (kind : ActorKind) (input : Bytes) : Actor :=
  { kind, stage := .start, name := [], input, hello := [], pc := .idle, writer := .stopped,
    written := [], taken := 0, closed := false, opLog := [], sent := [], subLog := [] }

/-- The reader loop (or the `Client`) ends: `handle_peer` goes on to `writer_fut.abort()`
and `unregister_client`. -/
def Actor.leave (x : Actor) : Actor := { x with stage := .leaving, pc := .idle }

/-- The record of sends with the outcome `o` of a send of the current op, when that send is a
`send!` (`strict`); a fan-out's sends are not recorded. -/
def Actor.noted (x : Actor) (strict : Bool) (o : Outcome) : List (Nat × Outcome) :=
  if strict then (x.opLog.length, o) :: x.sent else x.sent

/-- Recording an outcome of the current op keeps the record within the ops begun. -/
theorem Actor.noted_keys {x : Actor} {n : Nat} (h : ∀ j o, (j, o) ∈ x.sent → j ≤ n)
    (hn : x.opLog.length ≤ n) (strict : Bool) (o : Outcome) :
    ∀ j o', (j, o') ∈ x.noted strict o → j ≤ n := by
  intro j o' hm
  unfold Actor.noted at hm
  split at hm
  · rcases List.mem_cons.1 hm with he | hm
    · cases he
      exact hn
    · exact h j o' hm
  · exact h j o' hm

/-- Recording another outcome adds no failed lookup. -/
theorem Actor.not_mem_noted {x : Actor} {k : Nat} {o : Outcome} (ho : o ≠ .notRegistered)
    (h : (k, Outcome.notRegistered) ∉ x.sent) (strict : Bool) :
    (k, Outcome.notRegistered) ∉ x.noted strict o := by
  unfold Actor.noted
  split
  · rintro (⟨⟩ | ⟨_, hm⟩)
    · exact ho rfl
    · exact h hm
  · exact h

/-- The broker: the wire constants, the queue bound, the registry, the tasks, and every
frame any queue accepted. -/
structure Sys where
  wire : Wire
  queueSize : Nat
  db : BrokerDb
  actors : Nat → Actor
  log : List Delivery

namespace Sys

/-- The handle task `a` registers: its name and its queue. -/
def client (s : Sys) (a : Nat) : ElbusClient := ⟨(s.actors a).name, a⟩

/-- The frames queue `a` has accepted, in order. -/
def queue (s : Sys) (a : Nat) : List QItem := (s.log.filter (·.dest == a)).map (·.item)

/-- Task `a` becomes `x`. -/
def setActor (s : Sys) (a : Nat) (x : Actor) : Sys :=
  { s with actors := Function.update s.actors a x }

/-- Queue `d` accepts `it`. -/
def enqueue (s : Sys) (d : Nat) (it : QItem) : Sys := { s with log := s.log ++ [⟨d, it⟩] }

/-- `tx.send(it).await` on queue `d`: an error when its receiver is gone, `none` while it
is full (the sender waits), else accepted. -/
def trySend (s : Sys) (d : Nat) (it : QItem) : Option (Except Error Sys) :=
  if (s.actors d).closed then some (.error ⟨s.wire.sendErrorKind⟩)
  else if (s.queue d).length < (s.actors d).taken + s.queueSize then some (.ok (s.enqueue d it))
  else none

@[simp] theorem setActor_actors (s : Sys) (a b : Nat) (x : Actor) :
    (s.setActor a x).actors b = if b = a then x else s.actors b :=
  Function.update_apply _ _ _ _

theorem setActor_actors_self (s : Sys) (a : Nat) (x : Actor) : (s.setActor a x).actors a = x :=
  Function.update_same _ _ _

@[simp] theorem setActor_wire (s : Sys) (a : Nat) (x : Actor) : (s.setActor a x).wire = s.wire :=
  rfl

@[simp] theorem setActor_queueSize (s : Sys) (a : Nat) (x : Actor) :
    (s.setActor a x).queueSize = s.queueSize := rfl

@[simp] theorem setActor_db (s : Sys) (a : Nat) (x : Actor) : (s.setActor a x).db = s.db := rfl

@[simp] theorem setActor_log (s : Sys) (a : Nat) (x : Actor) : (s.setActor a x).log = s.log :=
  rfl

/-- A second change of one task overwrites the first. -/
theorem setActor_setActor (s : Sys) (a : Nat) (x y : Actor) :
    (s.setActor a x).setActor a y = s.setActor a y := by
  simp only [setActor, Function.update_idem]

@[simp] theorem enqueue_actors (s : Sys) (d : Nat) (it : QItem) :
    (s.enqueue d it).actors = s.actors := rfl

@[simp] theorem enqueue_wire (s : Sys) (d : Nat) (it : QItem) : (s.enqueue d it).wire = s.wire :=
  rfl

@[simp] theorem enqueue_queueSize (s : Sys) (d : Nat) (it : QItem) :
    (s.enqueue d it).queueSize = s.queueSize := rfl

@[simp] theorem enqueue_db (s : Sys) (d : Nat) (it : QItem) : (s.enqueue d it).db = s.db := rfl

@[simp] theorem enqueue_log (s : Sys) (d : Nat) (it : QItem) :
    (s.enqueue d it).log = s.log ++ [⟨d, it⟩] := rfl

theorem queue_setActor (s : Sys) (a b : Nat) (x : Actor) : (s.setActor a x).queue b = s.queue b :=
  rfl

/-- An accepted send extends its own queue and no other. -/
theorem queue_enqueue (s : Sys) (d b : Nat) (it : QItem) :
    (s.enqueue d it).queue b = if b = d then s.queue b ++ [it] else s.queue b := by
  unfold queue
  rw [enqueue_log, List.filter_append, List.map_append]
  by_cases h : b = d
  · subst h
    simp
  · simp [h, Ne.symm h]

theorem client_setActor (s : Sys) (a b : Nat) (x : Actor) :
    (s.setActor a x).client b = if b = a then ⟨x.name, a⟩ else s.client b := by
  by_cases h : b = a <;> simp [client, h]

/-- The three outcomes of a send. -/
theorem trySend_eq {s : Sys} {d : Nat} {it : QItem} {r : Except Error Sys}
    (h : s.trySend d it = some r) :
    ((s.actors d).closed = true ∧ r = .error ⟨s.wire.sendErrorKind⟩) ∨
      ((s.actors d).closed = false ∧ r = .ok (s.enqueue d it)) := by
  unfold trySend at h
  split at h
  · exact .inl ⟨‹_›, (Option.some.inj h).symm⟩
  · split at h
    · exact .inr ⟨Bool.eq_false_iff.2 ‹_›, (Option.some.inj h).symm⟩
    · cases h

end Sys

end Elbus
