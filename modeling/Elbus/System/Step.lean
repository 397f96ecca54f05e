import Elbus.System.State

/-!
# The steps of the broker

One step is what one task does between two of its awaits, or inside one critical section:

* `peerGreet`: `handle_peer` from the greeting to the name check, and `peerRegister`: its
  `register_client` and the answer (the handshake of `Elbus.Peer`, run on the task's input);
* `attach`: `Broker::register_client` of an in-process `Client`;
* `read`: one turn of `handle_reader`'s loop up to its first send: the reads of an op frame,
  and the subscription loop or the index lookup of the routing macros;
* `call`: an in-process `Client` op up to its first send;
* `deliver`: one `tx.send(frame).await` of a dispatch; `ack`: `send_ack!`;
* `detach` (`Client::drop`) and `unregister`, one critical section of `unregister_client`;
* `recv`, `write`, `flush`, `abort`: the writer task, or for an in-process `Client` its
  receiver; `dropRx`: the in-process receiver dropped; `cancel`: an in-process op's future
  dropped at an await.

The reads of the peer's input are merged with the lookup that follows them: they touch only
the task's own state. `Reachable` is every state a run from `Sys.init` reaches, under any
interleaving and any outcome of the I/O calls.
-/

namespace Elbus

/-! ### The reader loop -/

/-- An op frame: its id bytes, op, QoS and body. -/
structure OpFrame where
  opId : Bytes
  op : FrameOp
  qos : QoS
  body : Bytes
deriving DecidableEq, Repr

/-- The reads of one turn of `handle_reader`: the 9-byte header, and unless its flags are
zero (a ping, `none`) the body of the length it gives; with the input left. A short input is
`Eof`; an unknown op or QoS ends the loop at its `?`. -/
def readOpFrame (W : Wire) : Bytes → Except Error (Option OpFrame × Bytes)
  | i₀ :: i₁ :: i₂ :: i₃ :: flags :: l₀ :: l₁ :: l₂ :: l₃ :: rest =>
    if flags = 0 then .ok (none, rest)
    else do
      let op ← FrameOp.tryFrom W (flags &&& 0x3F)
      let qos ← QoS.tryFrom ((flags >>> 6) &&& 0x3F)
      let len := u32le [l₀, l₁, l₂, l₃]
      if len ≤ rest.length then
        pure (some ⟨[i₀, i₁, i₂, i₃], op, qos, rest.take len⟩, rest.drop len)
      else .error ⟨.eof⟩
  | _ => .error ⟨.eof⟩

/-! #### The frames a client sends -/

theorem UInt8.toNat_low6 (b : UInt8) : (b &&& 0x3F).toNat = b.toNat % 64 := by
  rw [UInt8.and_toNat]
  exact Nat.and_pow_two_sub_one_eq_mod b.toNat 6

theorem UInt8.toNat_shr6 (b : UInt8) : (b >>> 6).toNat = b.toNat / 64 := by
  show (b.toBitVec >>> (UInt8.mod 6 8).toBitVec).toNat = _
  rw [BitVec.ushiftRight_eq', BitVec.toNat_ushiftRight, Nat.shiftRight_eq_div_pow]
  rfl

/-- The QoS value in the upper bits of the flags byte. -/
def QoS.code : QoS → Nat
  | .no => 0
  | .processed => 1

/-- The flags byte of an op frame (§4.3): the op code in the lower six bits, the QoS above. -/
def flagsByte (W : Wire) (op : FrameOp) (qos : QoS) : UInt8 :=
  UInt8.ofNat ((W.opCode op).toNat + 64 * qos.code)

/-- An op frame as a client sends it (§4.3): the op id, the flags byte, the body length
(`u32`, little endian) and the body. Modelled from the spec: the client side is not among
the sources. -/
def OpFrame.encode (W : Wire) (fr : OpFrame) : Bytes :=
  fr.opId ++ flagsByte W fr.op fr.qos :: (le32 fr.body.length ++ fr.body)

theorem flagsByte_decode (W : Wire) (op : FrameOp) (qos : QoS) :
    FrameOp.tryFrom W (flagsByte W op qos &&& 0x3F) = .ok op ∧
      QoS.tryFrom ((flagsByte W op qos >>> 6) &&& 0x3F) = .ok qos := by
  have hop := W.opCode_lt op
  have hq : qos.code < 2 := by cases qos <;> decide
  have hlo : flagsByte W op qos &&& 0x3F = W.opCode op := UInt8.toNat.inj (by
    rw [UInt8.toNat_low6, flagsByte, toNat_uint8_ofNat]; omega)
  have hhi : (flagsByte W op qos >>> 6) &&& 0x3F = UInt8.ofNat qos.code := UInt8.toNat.inj (by
    rw [UInt8.toNat_low6, UInt8.toNat_shr6, flagsByte, toNat_uint8_ofNat, toNat_uint8_ofNat]
    omega)
  rw [hlo, hhi, FrameOp.tryFrom_opCode]
  cases qos <;> exact ⟨rfl, rfl⟩

/-- Only `Nop` with QoS `No` has the flags byte of a ping. -/
theorem flagsByte_eq_zero (W : Wire) (op : FrameOp) (qos : QoS) :
    flagsByte W op qos = 0 ↔ op = .nop ∧ qos = .no := by
  have hop := W.opCode_lt op
  have hq : qos.code = 0 ↔ qos = .no := by cases qos <;> decide
  have hq2 : qos.code < 2 := by cases qos <;> decide
  have hz : W.opCode op = 0 ↔ op = .nop := by
    rw [← W.opCode_nop]; exact W.opCode_injective.eq_iff
  have e : ∀ b : UInt8, b = 0 ↔ b.toNat = 0 :=
    fun b => ⟨fun h => h ▸ rfl, fun h => UInt8.toNat.inj (h.trans UInt8.toNat_zero.symm)⟩
  rw [← hz, ← hq, e, e, flagsByte, toNat_uint8_ofNat]
  omega

/-- **The reader takes back what a client sends.** Every op frame with a 4-byte id and a
body below `2^32` bytes, other than the ping's flags, is read whole from the input, and the
input after it is left for the next turn. -/
theorem readOpFrame_encode (W : Wire) (fr : OpFrame) (hid : fr.opId.length = 4)
    (hlen : fr.body.length < 2 ^ 32) (hping : ¬ (fr.op = .nop ∧ fr.qos = .no)) (rest : Bytes) :
    readOpFrame W (fr.encode W ++ rest) = .ok (some fr, rest) := by
  obtain ⟨opId, op, qos, body⟩ := fr
  match opId, hid with
  | [i₀, i₁, i₂, i₃], _ =>
    have hl : u32le (le32 body.length) = body.length := by rw [u32le_le32, Nat.mod_eq_of_lt hlen]
    obtain ⟨hop, hq⟩ := flagsByte_decode W op qos
    have hz : flagsByte W op qos ≠ 0 := fun h => hping ((flagsByte_eq_zero W op qos).1 h)
    simp only [OpFrame.encode, le32, List.cons_append, List.nil_append, List.append_assoc,
      readOpFrame, if_neg hz, hop, hq]
    rw [← le32, hl]
    simp [bind, Except.bind, pure, Except.pure]

/-- The op id an ack echoes, when the request's QoS asks for one (`send_ack!` runs only
under `qos == QoS::Processed`). -/
def OpFrame.ackId (fr : OpFrame) : Option Bytes :=
  if fr.qos = .processed then some fr.opId else none

/-- Whether a client call is `send`/`zc_send`, whose failed send is its result. -/
def ClientSend.strict : ClientSend → Bool
  | .send .. | .zcSend .. => true
  | _ => false

namespace Sys

/-- The `SubscribeTopic`/`UnsubscribeTopic` arms: the body split at every NUL, each segment
applied under the write lock until one is not UTF-8 (`from_utf8(t)?`, which ends the loop);
then the ack. -/
def handleTopics (s : Sys) (a : Nat) (mk : Bytes → SubOp) (ack : Option Bytes) (body : Bytes) :
    Sys :=
  let x := s.actors a
  match applyTopics mk (s.client a) (fun t _ => utf8Valid t) (s.db.subscriptions, x.subLog)
      (body.splitOn 0) with
  | (m, log, ok) =>
    { s with db := { s.db with subscriptions := m } }.setActor a
      (if ok then { x with subLog := log, pc := Pc.finish ack s.wire.responseOk }
       else { x with subLog := log }.leave)

/-- The routed arms: the target split off (`Err` ends the loop), then `send!`,
`send_broadcast!` or `publish!` up to its sends; `Nop` does nothing more. A `send!` whose
lookup fails records it. -/
def handleRouted (s : Sys) (a : Nat) (op : FrameOp) (ack : Option Bytes) (body : Bytes) : Sys :=
  let x := s.actors a
  match parseTarget body with
  | .error _ => s.setActor a x.leave
  | .ok (target, pos) =>
    match op.route with
    | none => s
    | some r =>
      match r.offer s.db (s.client a) target none body pos with
      | .error e =>
        s.setActor a
          { x with pc := Pc.finish ack (s.wire.kindCode e.kind), sent := x.noted true .notRegistered }
      | .ok o =>
        s.setActor a
          { x with pc := Pc.start o.frame (r = .message) ack s.wire.responseOk o.recipients }

/-- `handle_reader`'s `match op` on a frame it has read. -/
def handle (s : Sys) (a : Nat) (fr : OpFrame) : Sys :=
  match fr.op with
  | .subscribeTopic => s.handleTopics a .subscribe fr.ackId fr.body
  | .unsubscribeTopic => s.handleTopics a .unsubscribe fr.ackId fr.body
  | op => s.handleRouted a op fr.ackId fr.body

/-- One turn of `handle_reader`'s loop, when the reader waits for a frame; `fault` is a
failed read. -/
def read (s : Sys) (a : Nat) (fault : Bool) : Option Sys :=
  let x := s.actors a
  if x.kind = .peer ∧ x.stage = .live ∧ x.pc = .idle then
    if fault then some (s.setActor a x.leave)
    else
      match readOpFrame s.wire x.input with
      | .error _ => some (s.setActor a { x with input := [] }.leave)
      | .ok (none, rest) => some (s.setActor a { x with input := rest })
      | .ok (some fr, rest) =>
        some ((s.setActor a
          { x with input := rest, opLog := .wire fr.opId fr.op fr.qos :: x.opLog }).handle a fr)
  else none

/-! ### Registration -/

/-- `handle_peer` from the greeting to the name check, on the input of task `a`'s peer,
with `faults` the outcomes of its I/O calls. A refused handshake leaves the task
`rejected`. -/
def peerGreet (s : Sys) (a : Nat) (faults : List Fault) : Option Sys :=
  let x := s.actors a
  if x.kind = .peer ∧ x.stage = .start then
    match greet s.wire ⟨s.db, x.input, faults, []⟩ with
    | (.error _, c) =>
      some (s.setActor a { x with stage := .rejected, input := c.input, hello := c.written })
    | (.ok name, c) =>
      some (s.setActor a { x with stage := .named, name, input := c.input, hello := c.written })
  else none

/-- `register_client` for the name the handshake read, and the answer to the peer. A
refusal leaves the task `rejected`; a failed final `RESPONSE_OK` returns from `handle_peer`
after the registration (`abandoned`, its receiver dropped); otherwise the writer task is
spawned and the reader loop begins. -/
def peerRegister (s : Sys) (a : Nat) (faults : List Fault) : Option Sys :=
  let x := s.actors a
  if x.kind = .peer ∧ x.stage = .named then
    match registerPeer s.wire a x.name ⟨s.db, x.input, faults, x.hello⟩ with
    | (.error _, c) => some (s.setActor a { x with stage := .rejected, hello := c.written })
    | (.ok _, c) =>
      match writeAndFlush [s.wire.responseOk] c with
      | (.error _, c') =>
        some ({ s with db := c'.db }.setActor a
          { x with stage := .abandoned, hello := c'.written, closed := true, subLog := [] })
      | (.ok _, c') =>
        some ({ s with db := c'.db }.setActor a
          { x with stage := .live, hello := c'.written, writer := .waiting, subLog := [] })
  else none

/-- `Broker::register_client`: the `Client` exists only when the registration succeeds. -/
def attach (s : Sys) (a : Nat) (name : Bytes) : Option Sys :=
  let x := s.actors a
  if x.kind = .internal ∧ x.stage = .start then
    match s.db.registerClient ⟨name, a⟩ with
    | .ok db => some ({ s with db }.setActor a { x with stage := .live, name, subLog := [] })
    | .error _ => some (s.setActor a { x with stage := .rejected })
  else none

/-! ### In-process calls -/

/-- An op of the in-process `Client`. -/
inductive Call where
  | subscribe (topic : Bytes)
  | subscribeBulk (topics : List Bytes)
  | unsubscribe (topic : Bytes)
  | unsubscribeBulk (topics : List Bytes)
  | route (c : ClientSend)
deriving DecidableEq, Repr

/-- `subscribe_bulk`/`unsubscribe_bulk` under the write lock: each topic until one is
refused (the client is not registered); `subscribe`/`unsubscribe` are the one-topic case. -/
def clientTopics (s : Sys) (a : Nat) (mk : Bytes → SubOp) (ts : List Bytes) : Sys :=
  let x := s.actors a
  let c := s.client a
  match applyTopics mk c (fun t m => ((mk t).run m c).1) (s.db.subscriptions, x.subLog) ts with
  | (m, log, _) =>
    { s with db := { s.db with subscriptions := m } }.setActor a { x with subLog := log }

/-- An in-process `Client` op up to its first send. -/
def call (s : Sys) (a : Nat) (op : Call) : Option Sys :=
  let x := s.actors a
  if x.kind = .internal ∧ x.stage = .live ∧ x.pc = .idle then
    let s := s.setActor a { x with opLog := .call :: x.opLog }
    some <| match op with
      | .subscribe t => s.clientTopics a .subscribe [t]
      | .subscribeBulk ts => s.clientTopics a .subscribe ts
      | .unsubscribe t => s.clientTopics a .unsubscribe [t]
      | .unsubscribeBulk ts => s.clientTopics a .unsubscribe ts
      | .route c =>
        match clientOffer s.db (s.client a) c with
        | .error _ => s.setActor a { s.actors a with sent := (s.actors a).noted true .notRegistered }
        | .ok o =>
          s.setActor a
            { s.actors a with pc := Pc.start o.frame c.strict none s.wire.responseOk o.recipients }
  else none

/-! ### Sends -/

/-- The next `tx.send(frame).await` of a dispatch; a `send!` records what it came to. -/
def deliver (s : Sys) (a : Nat) : Option Sys :=
  let x := s.actors a
  match x.pc with
  | .sending f (r :: rest) strict ack =>
    match s.trySend r.tx ⟨f, ⟨a, x.opLog.length, false⟩⟩ with
    | none => none
    | some (.ok s') =>
      some (s'.setActor a
        { x with
          pc := Pc.start f strict ack s.wire.responseOk rest,
          sent := x.noted strict (.accepted r.tx) })
    | some (.error e) =>
      let next := if strict then Pc.finish ack (s.wire.kindCode e.kind)
        else Pc.start f strict ack s.wire.responseOk rest
      some (s.setActor a { x with pc := next, sent := x.noted strict (.refused r.tx) })
  | _ => none

/-- `send_ack!`: the ack on the task's own queue; a failed send ends the reader loop. -/
def ack (s : Sys) (a : Nat) : Option Sys :=
  let x := s.actors a
  match x.pc with
  | .acking opId code =>
    match s.trySend a ⟨ackFrame s.wire opId code, ⟨a, x.opLog.length, true⟩⟩ with
    | none => none
    | some (.ok s') => some (s'.setActor a { x with pc := .idle })
    | some (.error _) => some (s.setActor a x.leave)
  | _ => none

/-- An in-process op's future dropped at one of its sends. -/
def cancel (s : Sys) (a : Nat) : Option Sys :=
  let x := s.actors a
  if x.kind = .internal ∧ x.pc ≠ .idle then some (s.setActor a { x with pc := .idle }) else none

/-! ### Unregistration -/

/-- `Client::drop`: `unregister_client` begins. -/
def detach (s : Sys) (a : Nat) : Option Sys :=
  let x := s.actors a
  if x.kind = .internal ∧ x.stage = .live ∧ x.pc = .idle then some (s.setActor a x.leave) else none

/-- The next critical section of `unregister_client`: `subscriptions`, then `broadcasts`,
then `clients`. -/
def unregister (s : Sys) (a : Nat) : Option Sys :=
  let x := s.actors a
  match x.stage with
  | .leaving =>
    some ({ s with db := s.db.unregisterSubscriptions (s.client a) }.setActor a
      { x with stage := .leftSubscriptions })
  | .leftSubscriptions =>
    some ({ s with db := s.db.unregisterBroadcasts (s.client a) }.setActor a
      { x with stage := .leftBroadcasts })
  | .leftBroadcasts =>
    some ({ s with db := s.db.unregisterClients (s.client a) }.setActor a { x with stage := .gone })
  | _ => none

/-! ### Receivers -/

/-- `rx.recv()`: the next frame of the queue. The writer task starts writing it
(`frame.sender.as_ref().unwrap()` or `frame.payload()` panicking ends the task); an
in-process receiver just takes it. -/
def recv (s : Sys) (a : Nat) : Option Sys :=
  let x := s.actors a
  if x.closed then none
  else
    match (s.queue a).get? x.taken with
    | none => none
    | some it =>
      match x.kind with
      | .internal => some (s.setActor a { x with taken := x.taken + 1 })
      | .peer =>
        if x.writer = .waiting then
          some (s.setActor a (match writeChunks s.wire it.frame with
            | some cs =>
              { x with taken := x.taken + 1, writer := .writing (cs.filter (!·.isEmpty)) }
            | none => { x with taken := x.taken + 1, writer := .stopped, closed := true }))
        else none

/-- `write_data!` of the next chunk; a failed write, after `k` of its bytes, ends the task. -/
def write (s : Sys) (a : Nat) (fault : Fault) : Option Sys :=
  let x := s.actors a
  match x.writer with
  | .writing (c :: cs) =>
    some (s.setActor a (match fault with
      | none => { x with written := x.written ++ c, writer := .writing cs }
      | some k => { x with written := x.written ++ c.take k, writer := .stopped, closed := true }))
  | _ => none

/-- `flush!` after a frame; a failed flush ends the task. -/
def flush (s : Sys) (a : Nat) (ok : Bool) : Option Sys :=
  let x := s.actors a
  match x.writer with
  | .writing [] =>
    some (s.setActor a (if ok then { x with writer := .waiting }
      else { x with writer := .stopped, closed := true }))
  | _ => none

/-- `writer_fut.abort()` takes effect, after the reader loop has ended. -/
def abort (s : Sys) (a : Nat) : Option Sys :=
  let x := s.actors a
  if x.kind = .peer ∧ x.stage.readerDone ∧ x.writer ≠ .stopped then
    some (s.setActor a { x with writer := .stopped, closed := true })
  else none

/-- The in-process receiver is dropped. -/
def dropRx (s : Sys) (a : Nat) : Option Sys :=
  let x := s.actors a
  if x.kind = .internal ∧ x.closed = false then some (s.setActor a { x with closed := true })
  else none

end Sys

/-! ### Runs -/

/-- A step of one task. -/
inductive Action where
  | greet (a : Nat) (faults : List Fault)
  | register (a : Nat) (faults : List Fault)
  | attach (a : Nat) (name : Bytes)
  | read (a : Nat) (fault : Bool)
  | call (a : Nat) (op : Sys.Call)
  | deliver (a : Nat)
  | ack (a : Nat)
  | cancel (a : Nat)
  | detach (a : Nat)
  | unregister (a : Nat)
  | recv (a : Nat)
  | write (a : Nat) (fault : Fault)
  | flush (a : Nat) (ok : Bool)
  | abort (a : Nat)
  | dropRx (a : Nat)

/-- The task that takes the step. -/
def Action.actor : Action → Nat
  | .greet a _ | .register a _ | .attach a _ | .read a _ | .call a _ | .deliver a | .ack a
  | .cancel a | .detach a | .unregister a | .recv a | .write a _ | .flush a _ | .abort a
  | .dropRx a => a

namespace Sys

/-- The system after a step, or `none` when the task cannot take it. -/
def step (s : Sys) : Action → Option Sys
  | .greet a faults => s.peerGreet a faults
  | .register a faults => s.peerRegister a faults
  | .attach a name => s.attach a name
  | .read a fault => s.read a fault
  | .call a op => s.call a op
  | .deliver a => s.deliver a
  | .ack a => s.ack a
  | .cancel a => s.cancel a
  | .detach a => s.detach a
  | .unregister a => s.unregister a
  | .recv a => s.recv a
  | .write a fault => s.write a fault
  | .flush a ok => s.flush a ok
  | .abort a => s.abort a
  | .dropRx a => s.dropRx a

/-- The broker before any task runs: task `a` serves a peer that will send `peers a`, or is
an in-process `Client` when `peers a = none`. -/
def init (W : Wire) (queueSize : Nat) (peers : Nat → Option Bytes) : Sys :=
  { wire := W, queueSize, db := .default, log := [],
    actors := fun a => match peers a with
      | some input => .fresh .peer input
      | none => .fresh .internal [] }

end Sys

/-- The states some run reaches. -/
inductive Reachable : Sys → Prop where
  | init (W : Wire) (queueSize : Nat) (peers : Nat → Option Bytes) :
      Reachable (Sys.init W queueSize peers)
  | step {s s' : Sys} (act : Action) : Reachable s → s.step act = some s' → Reachable s'

/-- A schedule of steps, each taken in turn; `none` when one cannot be taken. -/
def Sys.run (s : Sys) : List Action → Option Sys
  | [] => some s
  | act :: acts => (s.step act).bind (·.run acts)

theorem Sys.run_cons {s s₁ : Sys} {act : Action} (acts : List Action) (h : s.step act = some s₁) :
    s.run (act :: acts) = s₁.run acts := by
  simp [Sys.run, h]

theorem Reachable.run {s s' : Sys} {acts : List Action} (hs : Reachable s)
    (h : s.run acts = some s') : Reachable s' := by
  induction acts generalizing s with
  | nil => exact Option.some.inj h ▸ hs
  | cons act acts ih =>
    simp only [Sys.run, Option.bind_eq_some] at h
    obtain ⟨s₁, h₁, h⟩ := h
    exact ih (.step act hs h₁) h

end Elbus
