import Elbus.System.Effects

/-!
# Acks

`handle_reader` runs `send_ack!` once for an op frame whose QoS is `Processed`, after the
op's sends, on the task's own queue; a failed send ends the loop with `?`. The status is
`RESPONSE_OK`, but for a `Message` it is the kind of the error `send!` returned, if any:
`not_registered` when the lookup found no client, the send's error when the queue's receiver
is gone. `Nop` falls through the inner `match` of the routed arm, so a `Nop` frame whose QoS
is `Processed` is read, its target split off, and gets no ack. Each task keeps its ops in
`Actor.opLog` and what its `send!`s came to in `Actor.sent`, and every ack on a queue carries
the number of its op, so `ackCount` counts the acks of one op.

`AckLocal` is what holds of one task: every op before the current one has sent the acks it
owes (`owed`), and an op under way goes on to the ack its frame asked for, with the status
that what its `send!` came to gives (`Pc.Serves`). `AckInv` adds what holds of the queues,
and `SentInv` what the record of sends says of the queues and the receivers.

* `acks_sound`: every queued ack is `[OP_ACK, op id, status]` on its sender's own queue, for
  an op frame of that sender with QoS `Processed` other than `Nop`, with status
  `RESPONSE_OK`, or for a `Message` the status of what its `send!` came to; a `send!` recorded
  as taken put its frame on that queue, one recorded as refused met a dropped receiver, and
  one recorded as finding no client queued no frame of its op; no op is acked twice; a reader loop between frames has acked exactly the ops that owe an ack; and
  no frame of an op's dispatch follows its ack.
* `nop_processed_unacked`: a `Nop` frame with QoS `Processed` is read and gets no ack.
-/

namespace Elbus

/-! ### The ops of a task -/

/-- Op number `k` (counting from one) of a log of ops kept newest first. -/
def opAt (ops : List OpInfo) : Nat → Option OpInfo
  | 0 => none
  | k + 1 => ops.reverse[k]?

/-- Beginning ops keeps the numbers of the earlier ones. -/
theorem opAt_append (l : List OpInfo) {ops : List OpInfo} {k : Nat} (hk : k ≤ ops.length) :
    opAt (l ++ ops) k = opAt ops k := by
  cases k with
  | zero => rfl
  | succ k =>
    simp only [opAt, List.reverse_append]
    exact List.getElem?_append_left (by simpa using hk)

theorem opAt_cons_length (o : OpInfo) (ops : List OpInfo) :
    opAt (o :: ops) (ops.length + 1) = some o := by
  simp [opAt]

theorem mem_of_opAt {ops : List OpInfo} {k : Nat} {o : OpInfo} (h : opAt ops k = some o) :
    o ∈ ops := by
  cases k with
  | zero => cases h
  | succ k => exact List.mem_reverse.1 (List.getElem?_mem h)

/-- The op id an op's ack echoes: an op frame read with QoS `Processed`, unless it is
`Nop`. -/
def OpInfo.ackId : OpInfo → Option Bytes
  | .wire opId op qos => if qos = .processed ∧ op ≠ .nop then some opId else none
  | .call => none

theorem OpInfo.ackId_eq_some {o : OpInfo} {opId : Bytes} :
    o.ackId = some opId ↔ ∃ op, o = .wire opId op .processed ∧ op ≠ .nop := by
  cases o with
  | wire i op q =>
    by_cases h : q = .processed ∧ op ≠ .nop
    · rw [OpInfo.ackId, if_pos h, Option.some.injEq]
      exact ⟨fun he => ⟨op, by rw [he, h.1], h.2⟩, fun ⟨_, he, _⟩ => by cases he; rfl⟩
    · rw [OpInfo.ackId, if_neg h]
      exact ⟨nofun, fun ⟨_, he, hn⟩ => by cases he; exact absurd ⟨rfl, hn⟩ h⟩
  | call => simp [OpInfo.ackId]

/-- Off `Nop`, the op id the reader's `send_ack!` echoes is the op's. -/
theorem OpFrame.ackId_eq {fr : OpFrame} (h : fr.op ≠ .nop) :
    fr.ackId = (OpInfo.wire fr.opId fr.op fr.qos).ackId := by
  simp [OpFrame.ackId, OpInfo.ackId, h]

/-- How many acks op `k` owes: one or none. -/
def owed (ops : List OpInfo) (k : Nat) : Nat :=
  if ((opAt ops k).bind OpInfo.ackId).isSome then 1 else 0

theorem owed_append (l : List OpInfo) {ops : List OpInfo} {k : Nat} (hk : k ≤ ops.length) :
    owed (l ++ ops) k = owed ops k := by
  simp only [owed, opAt_append l hk]

theorem owed_cons (o : OpInfo) {ops : List OpInfo} {k : Nat} (hk : k ≤ ops.length) :
    owed (o :: ops) k = owed ops k :=
  owed_append [o] hk

theorem owed_of_opAt {ops : List OpInfo} {k : Nat} {o : OpInfo} (h : opAt ops k = some o) :
    owed ops k = if o.ackId.isSome then 1 else 0 := by
  simp [owed, h]

theorem owed_nil (k : Nat) : owed [] k = 0 := by
  cases k <;> rfl

/-! ### Statuses -/

/-- The status byte `send_ack!` sends for a `send!` that came to `o`: `RESPONSE_OK` when the
queue took the frame, else `e.kind as u8` for the error `e` it returned. -/
def Outcome.status (W : Wire) : Outcome → UInt8
  | .notRegistered => W.kindCode .notRegistered
  | .refused _ => W.kindCode W.sendErrorKind
  | .accepted _ => W.responseOk

/-- The status of the ack of op `k`, an op frame `op`, of a task whose record of sends is
`sent`: for a `Message` the status of what its `send!` came to, for any other op
`RESPONSE_OK`. -/
def ackStatus (W : Wire) (sent : List (Nat × Outcome)) (k : Nat) (op : FrameOp) :
    Option UInt8 :=
  if op = .message then (sent.lookup k).map (Outcome.status W) else some W.responseOk

theorem ackStatus_of_ne {W : Wire} (sent : List (Nat × Outcome)) (k : Nat) {op : FrameOp}
    (h : op ≠ .message) : ackStatus W sent k op = some W.responseOk := by
  simp [ackStatus, h]

/-- The newest outcome of an op gives the status of its ack. -/
theorem ackStatus_cons (W : Wire) (sent : List (Nat × Outcome)) (k : Nat) (o : Outcome) :
    ackStatus W ((k, o) :: sent) k .message = some (o.status W) := by
  rw [ackStatus, if_pos rfl, List.lookup_cons, beq_self_eq_true]
  rfl

/-- An outcome of another op leaves a status alone. -/
theorem ackStatus_cons_ne {W : Wire} {sent : List (Nat × Outcome)} {j k : Nat} (o : Outcome)
    (op : FrameOp) (h : j ≠ k) : ackStatus W ((k, o) :: sent) j op = ackStatus W sent j op := by
  unfold ackStatus
  rw [List.lookup_cons, beq_false_of_ne h]

/-- What an op under way may still do, given the op `o` it serves, its number `k` and the
task's record of sends: dispatch on towards the ack the op owes, with `send!` exactly for a
`Message` and no failed lookup of the op recorded, or send that ack with the status
`ackStatus` gives. -/
def Pc.Serves (W : Wire) (o : OpInfo) (k : Nat) (sent : List (Nat × Outcome)) : Pc → Prop
  | .idle => True
  | .sending _ _ strict ack =>
    ack = o.ackId ∧ (ack ≠ none → ∀ i op q, o = .wire i op q → (strict = true ↔ op = .message)) ∧
      (k, Outcome.notRegistered) ∉ sent
  | .acking opId code =>
    o.ackId = some opId ∧ ∀ i op q, o = .wire i op q → ackStatus W sent k op = some code

section Serves

variable {W : Wire} {o : OpInfo} {k : Nat} {sent : List (Nat × Outcome)}

theorem Pc.serves_finish {ack : Option Bytes} {code : UInt8} (h : ack = o.ackId)
    (hc : ack ≠ none → ∀ i op q, o = .wire i op q → ackStatus W sent k op = some code) :
    (Pc.finish ack code).Serves W o k sent := by
  cases ack with
  | none => trivial
  | some opId => exact ⟨h.symm, hc nofun⟩

theorem Pc.serves_start {f : FrameData} {strict : Bool} {ack : Option Bytes}
    {rs : List ElbusClient} (h : ack = o.ackId)
    (hs : ack ≠ none → ∀ i op q, o = .wire i op q → (strict = true ↔ op = .message))
    (hnr : (k, Outcome.notRegistered) ∉ sent) (hok : rs = [] → ack ≠ none → ∀ i op q, o = .wire i op q →
      ackStatus W sent k op = some W.responseOk) :
    (Pc.start f strict ack W.responseOk rs).Serves W o k sent := by
  cases rs with
  | nil => exact Pc.serves_finish h (hok rfl)
  | cons r rs => exact ⟨h, hs, hnr⟩

end Serves

theorem Pc.finish_eq_idle {ack : Option Bytes} {code : UInt8} :
    Pc.finish ack code = .idle ↔ ack = none := by
  cases ack <;> simp [Pc.finish]

theorem Pc.start_eq_idle {f : FrameData} {strict : Bool} {ack : Option Bytes} {ok : UInt8}
    {rs : List ElbusClient} (h : Pc.start f strict ack ok rs = .idle) : ack = none := by
  cases rs with
  | nil => exact Pc.finish_eq_idle.1 h
  | cons r rs => cases h

/-! ### Acks -/

/-- How many acks of op `k` of task `a` a log of accepted frames holds. -/
def ackCount (log : List Delivery) (a k : Nat) : Nat :=
  log.countP fun d => d.item.tag = ⟨a, k, true⟩

theorem ackCount_append (log : List Delivery) (d : Delivery) (a k : Nat) :
    ackCount (log ++ [d]) a k = ackCount log a k + if d.item.tag = ⟨a, k, true⟩ then 1 else 0 := by
  simp [ackCount, List.countP_append, List.countP_cons]

/-- A frame that is not an ack leaves every count alone. -/
theorem ackCount_append_of_dispatch {log : List Delivery} {d : Delivery}
    (h : d.item.tag.ack = false) (a : Nat) : ackCount (log ++ [d]) a = ackCount log a := by
  funext k
  rw [ackCount_append, if_neg fun he => by simp [he] at h, Nat.add_zero]

/-- A frame of one task leaves the counts of the others alone. -/
theorem ackCount_append_of_src {log : List Delivery} {d : Delivery} {a : Nat}
    (h : d.item.tag.src ≠ a) : ackCount (log ++ [d]) a = ackCount log a := by
  funext k
  rw [ackCount_append, if_neg fun he => h (by simp [he]), Nat.add_zero]

/-- A queued ack counts for its op. -/
theorem ackCount_pos {log : List Delivery} {d : Delivery} (hd : d ∈ log)
    (hack : d.item.tag.ack = true) : 0 < ackCount log d.item.tag.src d.item.tag.op :=
  List.countP_pos_iff.2 ⟨d, hd, by simp [← hack]⟩

/-- An accepted ack of a task whose ops are `ops` and whose record of sends is `sent`: on
the task's own queue, the frame `[OP_ACK, op id, status]` of one of its op frames with QoS
`Processed` other than `Nop`, with the status `ackStatus` gives. -/
def AckOf (W : Wire) (ops : List OpInfo) (sent : List (Nat × Outcome)) (d : Delivery) : Prop :=
  d.dest = d.item.tag.src ∧ ∃ opId op code,
    opAt ops d.item.tag.op = some (.wire opId op .processed) ∧ op ≠ .nop ∧
      d.item.frame = ackFrame W opId code ∧ ackStatus W sent d.item.tag.op op = some code

section AckOf

variable {W : Wire} {ops : List OpInfo} {sent : List (Nat × Outcome)} {d : Delivery}

theorem AckOf.append (h : AckOf W ops sent d) (l : List OpInfo) (hk : d.item.tag.op ≤ ops.length) :
    AckOf W (l ++ ops) sent d := by
  obtain ⟨hd, opId, op, code, ho, h⟩ := h
  exact ⟨hd, opId, op, code, (opAt_append l hk).trans ho, h⟩

/-- An outcome of another op keeps an ack's status. -/
theorem AckOf.cons (h : AckOf W ops sent d) {k : Nat} (o : Outcome) (hk : d.item.tag.op ≠ k) :
    AckOf W ops ((k, o) :: sent) d := by
  obtain ⟨hd, opId, op, code, ho, hop, hf, hc⟩ := h
  exact ⟨hd, opId, op, code, ho, hop, hf, (ackStatus_cons_ne o op hk).trans hc⟩

end AckOf

/-! ### One task -/

/-- The acks of one task, given `cnt k`, how many acks of its op `k` the queues hold. -/
structure AckLocal (W : Wire) (cnt : Nat → Nat) (kind : ActorKind) (stage : Stage) (pc : Pc)
    (ops : List OpInfo) (sent : List (Nat × Outcome)) : Prop where
  /-- every op before the current one has sent the acks it owes -/
  past : ∀ k < ops.length, cnt k = owed ops k
  /-- the current op has sent none it does not owe -/
  now : cnt ops.length ≤ owed ops ops.length
  /-- an op under way has sent none yet, and goes on to the ack its frame asked for -/
  busy : pc ≠ .idle → cnt ops.length = 0 ∧
    ∃ o, opAt ops ops.length = some o ∧ pc.Serves W o ops.length sent
  /-- a running reader between ops has sent what its last op owes -/
  done : pc = .idle → stage = .live → cnt ops.length = owed ops ops.length
  /-- no ops before registration -/
  fresh : stage = .start ∨ stage = .named → ops = []
  /-- an in-process `Client` reads no op frames -/
  internal : kind = .internal → ∀ o ∈ ops, o = .call
  /-- the record of sends names only ops begun -/
  keys : ∀ j o, (j, o) ∈ sent → j ≤ ops.length

namespace AckLocal

variable {W : Wire} {cnt : Nat → Nat} {k : ActorKind} {st : Stage} {pc : Pc}
  {ops : List OpInfo} {sent : List (Nat × Outcome)}

theorem init (W : Wire) (k : ActorKind) {cnt : Nat → Nat} (h0 : cnt 0 = 0) :
    AckLocal W cnt k .start .idle [] [] :=
  ⟨nofun, by simp [h0], fun h => absurd rfl h, nofun, fun _ => rfl, fun _ _ => nofun, nofun⟩

/-- Before its first op a task may change stage freely. -/
theorem unstarted (h : AckLocal W cnt k st pc ops sent) (h0 : ops = []) (st' : Stage) :
    AckLocal W cnt k st' pc ops sent := by
  subst h0
  refine ⟨h.past, h.now, h.busy, fun _ _ => ?_, fun _ => rfl, h.internal, h.keys⟩
  simpa [owed_nil] using h.now

/-- The reader loop ends. -/
theorem leave (h : AckLocal W cnt k st pc ops sent) : AckLocal W cnt k .leaving .idle ops sent := by
  refine ⟨h.past, h.now, fun h => absurd rfl h, fun _ h => ?_, fun h => ?_, h.internal, h.keys⟩ <;>
    simp at h

/-- The sections of `unregister_client`. -/
theorem retire (h : AckLocal W cnt k st pc ops sent) {st' : Stage} (hst : st'.readerDone) :
    AckLocal W cnt k st' pc ops sent :=
  ⟨h.past, h.now, h.busy, fun _ hl => by simp [hl, Stage.readerDone] at hst,
    fun h => by rcases h with rfl | rfl <;> simp [Stage.readerDone] at hst, h.internal, h.keys⟩

/-- An in-process op dropped at a send. -/
theorem cancel (h : AckLocal W cnt .internal st pc ops sent) (hpc : pc ≠ .idle) :
    AckLocal W cnt .internal st .idle ops sent := by
  obtain ⟨h0, o, ho, -⟩ := h.busy hpc
  have hc : o = .call := h.internal rfl o (mem_of_opAt ho)
  refine ⟨h.past, h.now, fun h => absurd rfl h, fun _ _ => ?_, h.fresh, h.internal, h.keys⟩
  rw [h0, owed_of_opAt ho, hc]
  rfl

/-- A dispatch goes on, or ends with the ack its op asked for. -/
theorem resume {f : FrameData} {rs : List ElbusClient} {strict : Bool} {ack : Option Bytes}
    (h : AckLocal W cnt k st (.sending f rs strict ack) ops sent) {pc' : Pc}
    {sent' : List (Nat × Outcome)}
    (hs : ∀ o, (Pc.sending f rs strict ack).Serves W o ops.length sent →
      pc'.Serves W o ops.length sent')
    (hid : pc' = .idle → ack = none) (hk : ∀ j o, (j, o) ∈ sent' → j ≤ ops.length) :
    AckLocal W cnt k st pc' ops sent' := by
  obtain ⟨h0, o, ho, hso⟩ := h.busy nofun
  refine ⟨h.past, h.now, fun _ => ⟨h0, o, ho, hs o hso⟩, fun hi _ => ?_, h.fresh, h.internal, hk⟩
  rw [h0, owed_of_opAt ho, ← hso.1, hid hi]
  rfl

/-- `send_ack!` is accepted: the op has sent the ack it owes. -/
theorem acked {opId : Bytes} {code : UInt8} (h : AckLocal W cnt k st (.acking opId code) ops sent)
    {cnt' : Nat → Nat} (hc : ∀ j, cnt' j = cnt j + if j = ops.length then 1 else 0) :
    AckLocal W cnt' k st .idle ops sent := by
  obtain ⟨h0, o, ho, hso, -⟩ := h.busy nofun
  have hone : owed ops ops.length = 1 := by simp [owed_of_opAt ho, hso]
  refine ⟨fun j hj => ?_, by simp [hc, h0, hone], fun h => absurd rfl h,
    fun _ _ => by simp [hc, h0, hone], h.fresh, h.internal, h.keys⟩
  rw [hc, if_neg (Nat.ne_of_lt hj), Nat.add_zero]
  exact h.past j hj

/-- A running reader between ops begins op `o`, none of whose acks is queued. -/
theorem begin (h : AckLocal W cnt k .live .idle ops sent) (hfut : cnt (ops.length + 1) = 0)
    {o : OpInfo} (hk : k = .internal → o = .call) {st' : Stage} {pc' : Pc}
    {sent' : List (Nat × Outcome)} (hs : pc'.Serves W o (ops.length + 1) sent')
    (hst : st' = .leaving ∨ st' = .live ∧ (pc' = .idle → o.ackId = none))
    (hk' : ∀ j o, (j, o) ∈ sent' → j ≤ ops.length + 1) :
    AckLocal W cnt k st' pc' (o :: ops) sent' := by
  have hlen : (o :: ops).length = ops.length + 1 := rfl
  have hnew : owed (o :: ops) (ops.length + 1) = if o.ackId.isSome then 1 else 0 :=
    owed_of_opAt (opAt_cons_length o ops)
  refine ⟨fun j hj => ?_, by rw [hlen, hfut]; exact Nat.zero_le _,
    fun _ => ⟨hfut, o, opAt_cons_length o ops, hs⟩, fun hi hl => ?_, fun hf => ?_,
    fun hi o' ho' => ?_, hk'⟩
  · have hj : j ≤ ops.length := Nat.lt_succ_iff.1 hj
    rw [owed_cons o hj]
    rcases Nat.lt_or_ge j ops.length with hj | hj
    · exact h.past j hj
    · rw [show j = ops.length by omega]
      exact h.done rfl rfl
  · rcases hst with rfl | ⟨-, hn⟩
    · cases hl
    · rw [hlen, hfut, hnew, hn hi]
      rfl
  · rcases hst with rfl | ⟨rfl, -⟩ <;> simp at hf
  · rcases List.mem_cons.1 ho' with rfl | ho'
    exacts [hk hi, h.internal hi o' ho']

end AckLocal

/-! ### The reader's turn -/

/-- What a reader's turn leaves in task `a` of the op `o` it began in `s`: no frame queued,
the task's kind and ops unchanged, its record of sends unchanged or with a failed lookup of
the op, and either the reader loop ended, or the op's next move is one that `o` allows and,
when there is none, `o` owed no ack. -/
structure Sys.Begins (s s' : Sys) (a : Nat) (o : OpInfo) : Prop where
  log : s'.log = s.log
  kind : (s'.actors a).kind = (s.actors a).kind
  ops : (s'.actors a).opLog = (s.actors a).opLog
  sent : (s'.actors a).sent = (s.actors a).sent ∨
    (s'.actors a).sent = (s.actors a).noted true .notRegistered
  serves : (s'.actors a).pc.Serves s.wire o (s.actors a).opLog.length (s'.actors a).sent
  stage : (s'.actors a).stage = .leaving ∨
    (s'.actors a).stage = (s.actors a).stage ∧ ((s'.actors a).pc = .idle → o.ackId = none)

theorem FrameOp.route_ne_nop {op : FrameOp} {r : Route} (h : op.route = some r) : op ≠ .nop := by
  rintro rfl
  cases h

/-- An op is a `Message` exactly when it routes by `send!`. -/
theorem FrameOp.eq_message_iff {op : FrameOp} {r : Route} (h : op.route = some r) :
    op = .message ↔ r = .message := by
  cases op <;> cases h <;> simp

namespace Sys

variable {s : Sys} {a : Nat}

theorem begins_leave {s' : Sys} {o : OpInfo} {x : Actor} (hlog : s'.log = s.log)
    (hx : s'.actors a = x.leave) (hk : x.kind = (s.actors a).kind)
    (ho : x.opLog = (s.actors a).opLog) (hs : x.sent = (s.actors a).sent) : s.Begins s' a o :=
  ⟨hlog, by rw [hx]; exact hk, by rw [hx]; exact ho, .inl (by rw [hx]; exact hs),
    by rw [hx]; trivial, .inl (by rw [hx]; rfl)⟩

theorem handleTopics_begins {mk : Bytes → SubOp} {fr : OpFrame}
    (hop : fr.op = .subscribeTopic ∨ fr.op = .unsubscribeTopic) :
    s.Begins (s.handleTopics a mk fr.ackId fr.body) a (.wire fr.opId fr.op fr.qos) := by
  have hn : fr.op ≠ .nop ∧ fr.op ≠ .message := by rcases hop with h | h <;> simp [h]
  rw [handleTopics_eq]
  dsimp only
  split
  · refine ⟨rfl, by simp, by simp, .inl (by simp), ?_, .inr ⟨by simp, fun hi => ?_⟩⟩
    · simpa using Pc.serves_finish (OpFrame.ackId_eq hn.1) fun _ _ _ _ he => by
        cases he
        exact ackStatus_of_ne _ _ hn.2
    · simp only [setActor_actors, if_pos rfl] at hi
      rw [← OpFrame.ackId_eq hn.1, ← Pc.finish_eq_idle.1 hi]
  · exact begins_leave rfl (setActor_actors_self ..) rfl rfl rfl

theorem handleRouted_begins {fr : OpFrame} (hpc : (s.actors a).pc = .idle)
    (hnr : ((s.actors a).opLog.length, Outcome.notRegistered) ∉ (s.actors a).sent)
    (hnop : fr.op.route = none → fr.op = .nop) :
    s.Begins (s.handleRouted a fr.op fr.ackId fr.body) a (.wire fr.opId fr.op fr.qos) := by
  rcases handleRouted_eq (s := s) (a := a) fr.op fr.ackId fr.body with ⟨-, he⟩ | ⟨hr, he⟩ |
    ⟨_, _, -, hr, -, -, he⟩ | ⟨r, o, hr, ho, he⟩ <;> rw [he]
  · exact begins_leave rfl (setActor_actors_self ..) rfl rfl rfl
  · refine ⟨rfl, rfl, rfl, .inl rfl, by rw [hpc]; trivial, .inr ⟨rfl, fun _ => ?_⟩⟩
    simp [OpInfo.ackId, hnop hr]
  · have hack := OpFrame.ackId_eq (FrameOp.route_ne_nop hr)
    refine ⟨rfl, by simp, by simp, .inr (by simp), ?_, .inr ⟨by simp, fun hi => ?_⟩⟩
    · rw [setActor_actors_self]
      refine Pc.serves_finish hack fun _ i op q he => ?_
      cases he
      rw [(FrameOp.eq_message_iff hr).2 rfl]
      exact ackStatus_cons ..
    · simp only [setActor_actors, if_pos rfl] at hi
      rw [← hack, ← Pc.finish_eq_idle.1 hi]
  · have hack := OpFrame.ackId_eq (FrameOp.route_ne_nop hr)
    refine ⟨rfl, by simp, by simp, .inl (by simp), ?_, .inr ⟨by simp, fun hi => ?_⟩⟩
    · rw [setActor_actors_self]
      refine Pc.serves_start hack (fun _ i op q he => ?_) hnr fun hnil _ i op q he => ?_ <;> cases he
      · simpa using (FrameOp.eq_message_iff hr).symm
      · refine ackStatus_of_ne _ _ fun hm => ?_
        obtain ⟨d, hd⟩ := wireOffer_message (((FrameOp.eq_message_iff hr).1 hm) ▸ ho)
        simp [hd] at hnil
    · simp only [setActor_actors, if_pos rfl] at hi
      rw [← hack, ← Pc.start_eq_idle hi]

/-- `handle` on a frame that a task between ops has read. -/
theorem handle_begins (fr : OpFrame) (hpc : (s.actors a).pc = .idle)
    (hnr : ((s.actors a).opLog.length, Outcome.notRegistered) ∉ (s.actors a).sent) :
    s.Begins (s.handle a fr) a (.wire fr.opId fr.op fr.qos) := by
  rcases handle_eq (s := s) (a := a) fr with ⟨hop, he⟩ | ⟨hop, he⟩ | ⟨hnop, he⟩ <;> rw [he]
  exacts [handleTopics_begins (.inl hop), handleTopics_begins (.inr hop),
    handleRouted_begins hpc hnr hnop]

end Sys

/-! ### The invariant -/

/-- The acks of every task, and what holds of the queued acks. -/
structure AckInv (s : Sys) : Prop where
  task : ∀ a, AckLocal s.wire (ackCount s.log a) (s.actors a).kind (s.actors a).stage
    (s.actors a).pc (s.actors a).opLog (s.actors a).sent
  /-- every queued frame names an op its task has begun -/
  bound : ∀ d ∈ s.log, d.item.tag.op ≤ (s.actors d.item.tag.src).opLog.length
  shape : ∀ d ∈ s.log, d.item.tag.ack = true →
    AckOf s.wire (s.actors d.item.tag.src).opLog (s.actors d.item.tag.src).sent d
  /-- no frame of an op's dispatch follows its ack -/
  order : s.log.Pairwise fun d₁ d₂ =>
    d₁.item.tag.ack = true → d₂.item.tag ≠ { d₁.item.tag with ack := false }
  /-- no queued frame of a dispatch belongs to an op whose lookup found no client -/
  missed : ∀ d ∈ s.log, d.item.tag.ack = false →
    (d.item.tag.op, Outcome.notRegistered) ∉ (s.actors d.item.tag.src).sent

/-- The record of sends of task `a` after a step: the same, or with one more outcome, of an
op none of whose acks is queued, and none of whose frames if the outcome is a failed
lookup. -/
def Sys.SentGrows (s : Sys) (a : Nat) (sent : List (Nat × Outcome)) : Prop :=
  sent = (s.actors a).sent ∨
    ∃ k o, sent = (k, o) :: (s.actors a).sent ∧ ackCount s.log a k = 0 ∧
      (o = .notRegistered → ∀ d ∈ s.log, d.item.tag.src = a → d.item.tag.op ≠ k)

/-- A queued ack keeps its status when its task records the outcome of a later op. -/
theorem AckOf.grows {s : Sys} {d : Delivery} (hd : d ∈ s.log) (hack : d.item.tag.ack = true)
    {ops : List OpInfo} {sent : List (Nat × Outcome)}
    (h : AckOf s.wire ops (s.actors d.item.tag.src).sent d)
    (hg : s.SentGrows d.item.tag.src sent) : AckOf s.wire ops sent d := by
  rcases hg with rfl | ⟨k, o, rfl, h0, -⟩
  · exact h
  · exact h.cons o fun he => absurd (he ▸ h0) (Nat.pos_iff_ne_zero.1 (ackCount_pos hd hack))

/-- A queued frame of a dispatch stays clear of failed lookups when its task records an
outcome. -/
theorem Sys.SentGrows.missed {s : Sys} {d : Delivery} (hd : d ∈ s.log)
    {sent : List (Nat × Outcome)} (hg : s.SentGrows d.item.tag.src sent)
    (h : (d.item.tag.op, Outcome.notRegistered) ∉ (s.actors d.item.tag.src).sent) :
    (d.item.tag.op, Outcome.notRegistered) ∉ sent := by
  rcases hg with rfl | ⟨k, o, rfl, -, hn⟩
  · exact h
  · rintro (⟨⟩ | ⟨_, hm⟩)
    · exact hn rfl d hd rfl rfl
    · exact h hm

namespace AckInv

variable {s s' : Sys} {a : Nat}

theorem init (W : Wire) (q : Nat) (peers : Nat → Option Bytes) :
    AckInv (Sys.init W q peers) := by
  have hl : ∀ d, d ∉ (Sys.init W q peers).log := List.not_mem_nil
  refine ⟨fun a => ?_, fun d hd => absurd hd (hl d), fun d hd => absurd hd (hl d), .nil,
    fun d hd => absurd hd (hl d)⟩
  simp only [Sys.init]
  split <;> exact AckLocal.init W _ rfl

/-- No ack of an op a task has not begun is queued. -/
theorem count_future (h : AckInv s) {k : Nat} (hk : (s.actors a).opLog.length < k) :
    ackCount s.log a k = 0 := by
  refine List.countP_eq_zero.2 fun d hd he => ?_
  have hb := h.bound d hd
  rw [of_decide_eq_true he] at hb
  exact absurd hb (by simpa using hk)

/-- No frame of the op a task begins next is queued. -/
theorem unqueued_next (h : AckInv s) : ∀ d ∈ s.log, d.item.tag.src = a →
    d.item.tag.op ≠ (s.actors a).opLog.length + 1 := fun d hd hsrc he => by
  have hb := h.bound d hd
  rw [hsrc, he] at hb
  omega

/-- The record of sends of a task names no op it has yet to begin. -/
theorem not_mem_sent (h : AckInv s) (o : Outcome) :
    ((s.actors a).opLog.length + 1, o) ∉ (s.actors a).sent :=
  fun hm => absurd ((h.task a).keys _ _ hm) (Nat.not_succ_le_self _)

/-- A step of task `a` that queues nothing and only begins ops. -/
theorem update (h : AckInv s) (hw : s'.wire = s.wire) (hlog : s'.log = s.log)
    (ho : ∀ b, b ≠ a → s'.actors b = s.actors b) (l : List OpInfo)
    (hl : (s'.actors a).opLog = l ++ (s.actors a).opLog) (hg : s.SentGrows a (s'.actors a).sent)
    (hx : AckLocal s.wire (ackCount s.log a) (s'.actors a).kind (s'.actors a).stage
      (s'.actors a).pc (s'.actors a).opLog (s'.actors a).sent) : AckInv s' := by
  have grow : ∀ b, (∃ l, (s'.actors b).opLog = l ++ (s.actors b).opLog) ∧
      s.SentGrows b (s'.actors b).sent := fun b => by
    by_cases hb : b = a
    · subst hb
      exact ⟨⟨l, hl⟩, hg⟩
    · rw [ho b hb]
      exact ⟨⟨[], rfl⟩, .inl rfl⟩
  refine ⟨fun b => ?_, fun d hd => ?_, fun d hd hack => ?_, hlog ▸ h.order, fun d hd hack => ?_⟩
  · rw [hw, hlog]
    by_cases hb : b = a
    · subst hb
      exact hx
    · rw [ho b hb]
      exact h.task b
  · rw [hlog] at hd
    obtain ⟨⟨l', hl'⟩, -⟩ := grow d.item.tag.src
    rw [hl', List.length_append]
    exact Nat.le_trans (h.bound d hd) (Nat.le_add_left _ _)
  · rw [hlog] at hd
    obtain ⟨⟨l', hl'⟩, hg'⟩ := grow d.item.tag.src
    rw [hw, hl']
    exact ((h.shape d hd hack).append l' (h.bound d hd)).grows hd hack hg'
  · rw [hlog] at hd
    exact (grow d.item.tag.src).2.missed hd (h.missed d hd hack)

theorem setActor (h : AckInv s) {x : Actor} (l : List OpInfo)
    (hl : x.opLog = l ++ (s.actors a).opLog) (hg : s.SentGrows a x.sent)
    (hx : AckLocal s.wire (ackCount s.log a) x.kind x.stage x.pc x.opLog x.sent) :
    AckInv (s.setActor a x) :=
  h.update (a := a) rfl rfl (fun b hb => by simp [hb]) l (by simpa using hl) (by simpa using hg)
    (by simpa using hx)

theorem db {db : BrokerDb} (h : AckInv s) : AckInv { s with db } :=
  ⟨h.task, h.bound, h.shape, h.order, h.missed⟩

/-- A step of task `a` that queues one frame of its current op. -/
theorem update_enqueue (h : AckInv s) (d : Delivery) (hw : s'.wire = s.wire)
    (hlog : s'.log = s.log ++ [d]) (ho : ∀ b, b ≠ a → s'.actors b = s.actors b)
    (hl : (s'.actors a).opLog = (s.actors a).opLog) (hsrc : d.item.tag.src = a)
    (hop : d.item.tag.op = (s.actors a).opLog.length)
    (hg : s.SentGrows a (s'.actors a).sent)
    (hack : d.item.tag.ack = true → AckOf s.wire (s.actors a).opLog (s'.actors a).sent d)
    (hfirst : d.item.tag.ack = false → ackCount s.log a d.item.tag.op = 0)
    (hnr : d.item.tag.ack = false → (d.item.tag.op, Outcome.notRegistered) ∉ (s'.actors a).sent)
    (hx : AckLocal s.wire (ackCount (s.log ++ [d]) a) (s'.actors a).kind (s'.actors a).stage
      (s'.actors a).pc (s'.actors a).opLog (s'.actors a).sent) : AckInv s' := by
  have hops : ∀ b, (s'.actors b).opLog = (s.actors b).opLog ∧
      s.SentGrows b (s'.actors b).sent := fun b => by
    by_cases hb : b = a
    · subst hb
      exact ⟨hl, hg⟩
    · rw [ho b hb]
      exact ⟨rfl, .inl rfl⟩
  refine ⟨fun b => ?_, fun e he => ?_, fun e he hack' => ?_, ?_, fun e he hack' => ?_⟩
  · rw [hw, hlog]
    by_cases hb : b = a
    · subst hb
      exact hx
    · rw [ackCount_append_of_src (hsrc ▸ Ne.symm hb), ho b hb]
      exact h.task b
  · rw [hlog] at he
    rw [(hops _).1]
    rcases List.mem_append.1 he with he | he
    · exact h.bound e he
    · rw [List.mem_singleton.1 he, hsrc, hop]
  · rw [hlog] at he
    rw [hw, (hops _).1]
    rcases List.mem_append.1 he with he | he
    · exact (h.shape e he hack').grows he hack' (hops _).2
    · rw [List.mem_singleton.1 he] at hack' ⊢
      exact hsrc ▸ hack hack'
  · rw [hlog]
    refine List.pairwise_append.2
      ⟨h.order, List.pairwise_singleton _ _, fun e he d' hd' hack' heq => ?_⟩
    rw [List.mem_singleton.1 hd'] at heq
    cases hd : d.item.tag.ack
    · have hz := List.countP_eq_zero.1 (hfirst hd) e he
      refine hz (decide_eq_true ?_)
      have h₁ : d.item.tag.src = e.item.tag.src := by rw [heq]
      have h₂ : d.item.tag.op = e.item.tag.op := by rw [heq]
      rw [← hsrc, h₁, h₂, ← hack']
    · simp [heq] at hd
  · rw [hlog] at he
    rcases List.mem_append.1 he with he | he
    · exact (hops _).2.missed he (h.missed e he hack')
    · rw [List.mem_singleton.1 he] at hack' ⊢
      exact hsrc ▸ hnr hack'

theorem handle {fr : OpFrame} {i : Bytes} (h : AckInv s) (hk : (s.actors a).kind = .peer)
    (hl : (s.actors a).stage = .live) (hpc : (s.actors a).pc = .idle) :
    AckInv ((s.setActor a { s.actors a with
      input := i, opLog := .wire fr.opId fr.op fr.qos :: (s.actors a).opLog }).handle a fr) := by
  generalize hy : ({ s.actors a with
    input := i, opLog := .wire fr.opId fr.op fr.qos :: (s.actors a).opLog } : Actor) = y
  have hya : (s.setActor a y).actors a = y := Sys.setActor_actors_self ..
  obtain ⟨hw, -, ho⟩ := Sys.handle_frame (s := s.setActor a y) (a := a) fr
  obtain ⟨hlog, hk', hops, hsent, hs, hst⟩ := Sys.handle_begins (s := s.setActor a y) (a := a) fr
    (by rw [hya, ← hy]; exact hpc) (by rw [hya, ← hy]; exact h.not_mem_sent _)
  rw [hya] at hk' hops hsent hs hst
  subst hy
  have ht := h.task a
  rw [hl, hpc] at ht
  have hfut := h.count_future (a := a) (Nat.lt_succ_self _)
  have hkeys : ∀ j o, (j, o) ∈ (s.actors a).sent → j ≤ (s.actors a).opLog.length + 1 :=
    fun j o hm => Nat.le_succ_of_le (ht.keys j o hm)
  refine h.update hw hlog (fun b hb => by simp [ho b hb, hb]) [_] hops ?_ ?_
  · rcases hsent with hsent | hsent
    · exact .inl hsent
    · exact .inr ⟨_, _, hsent, hfut, fun _ => h.unqueued_next⟩
  · rw [hk', hops]
    refine ht.begin hfut (fun hi => by simp [hk] at hi) hs (by simpa [hl] using hst) ?_
    rcases hsent with hsent | hsent <;> rw [hsent]
    · exact hkeys
    · refine Actor.noted_keys ?_ ?_ true _
      exacts [hkeys, le_rfl]

theorem step {act : Action} (h : AckInv s) (hs : s.step act = some s') : AckInv s' := by
  cases act with
  | greet a fs =>
    obtain ⟨-, hst, ⟨_, _, rfl⟩ | ⟨_, _, _, rfl⟩⟩ := Sys.peerGreet_eq hs <;>
      exact h.setActor [] rfl (.inl rfl) ((h.task a).unstarted ((h.task a).fresh (.inl hst)) _)
  | register a fs =>
    obtain ⟨-, hst, ⟨-, _, rfl⟩ | ⟨-, _, rfl | rfl⟩⟩ := Sys.peerRegister_eq hs
    · exact h.setActor [] rfl (.inl rfl) ((h.task a).unstarted ((h.task a).fresh (.inr hst)) _)
    all_goals
      exact h.db.setActor [] rfl (.inl rfl) ((h.task a).unstarted ((h.task a).fresh (.inr hst)) _)
  | attach a name =>
    obtain ⟨-, hst, ⟨-, rfl⟩ | ⟨-, rfl⟩⟩ := Sys.attach_eq hs
    · exact h.db.setActor [] rfl (.inl rfl) ((h.task a).unstarted ((h.task a).fresh (.inl hst)) _)
    · exact h.setActor [] rfl (.inl rfl) ((h.task a).unstarted ((h.task a).fresh (.inl hst)) _)
  | read a fault =>
    obtain ⟨hk, hl, hpc, ⟨_, rfl⟩ | ⟨_, rfl⟩ | ⟨fr, _, -, rfl⟩⟩ := Sys.read_eq hs
    · exact h.setActor [] rfl (.inl rfl) (h.task a).leave
    · exact h.setActor [] rfl (.inl rfl) (h.task a)
    · exact h.handle hk hl hpc
  | call a op =>
    obtain ⟨hk, hl, hpc, hc⟩ := Sys.call_eq hs
    have ht := h.task a
    rw [hl, hpc] at ht
    have hfut := h.count_future (a := a) (Nat.lt_succ_self _)
    have hkeys : ∀ j o, (j, o) ∈ (s.actors a).sent → j ≤ (s.actors a).opLog.length + 1 :=
      fun j o hm => Nat.le_succ_of_le (ht.keys j o hm)
    rcases hc with ⟨_, _, -, rfl⟩ | ⟨_, -, rfl⟩ | ⟨c, o, -, -, rfl⟩
    · rw [Sys.clientTopics_eq]
      refine h.update (a := a) rfl rfl (fun b hb => by simp [hb]) [.call] (by simp) (.inl (by simp)) ?_
      simp only [Sys.setActor_actors_self, hl, hpc]
      exact ht.begin hfut (fun _ => rfl) trivial (.inr ⟨rfl, fun _ => rfl⟩) hkeys
    · rw [Sys.setActor_setActor]
      refine h.setActor [.call] (by simp)
        (.inr ⟨_, .notRegistered, by simp [Actor.noted], hfut, fun _ => h.unqueued_next⟩) ?_
      simp only [Sys.setActor_actors_self, hl, hpc]
      refine ht.begin hfut (fun _ => rfl) trivial (.inr ⟨rfl, fun _ => rfl⟩)
        (Actor.noted_keys ?_ ?_ true _)
      exacts [hkeys, le_rfl]
    · refine h.update (a := a) rfl rfl (fun b hb => by simp [hb]) [.call] (by simp) (.inl (by simp)) ?_
      simp only [Sys.setActor_actors_self, hl]
      exact ht.begin hfut (fun _ => rfl) (Pc.serves_start rfl nofun (h.not_mem_sent _) nofun)
        (.inr ⟨rfl, fun _ => rfl⟩) hkeys
  | deliver a =>
    obtain ⟨f, r, rest, strict, ack, hpc, ⟨-, rfl⟩ | ⟨-, rfl⟩⟩ := Sys.deliver_eq hs
    · have hb := h.task a
      rw [hpc] at hb
      obtain ⟨h0, -, -, -, -, hnr⟩ := hb.busy nofun
      refine h.update_enqueue _ rfl rfl (fun b hb => by simp [hb]) (by simp) rfl rfl ?_ nofun
        (fun _ => h0) (fun _ => by simpa using Actor.not_mem_noted (o := .accepted r.tx) nofun hnr strict) ?_
      · cases strict
        exacts [.inl (by simp [Actor.noted]),
          .inr ⟨_, .accepted r.tx, by simp [Actor.noted], h0, nofun⟩]
      rw [ackCount_append_of_dispatch (d := ⟨r.tx, f, a, _, false⟩) rfl,
        Sys.setActor_actors_self]
      refine hb.resume (fun o ho => Pc.serves_start ho.1 ho.2.1 (Actor.not_mem_noted (o := .accepted r.tx) nofun ho.2.2 _)
        fun _ hn i op q he => ?_) Pc.start_eq_idle (Actor.noted_keys hb.keys le_rfl _ _)
      cases strict
      · exact ackStatus_of_ne _ _ fun hm => nomatch (ho.2.1 hn i op q he).2 hm
      · rw [(ho.2.1 hn i op q he).1 rfl]
        exact ackStatus_cons ..
    · have hb := h.task a
      rw [hpc] at hb
      have h0 := (hb.busy nofun).1
      refine h.setActor [] rfl ?_
        (hb.resume (fun o ho => ?_) (fun hi => ?_) (Actor.noted_keys hb.keys le_rfl _ _))
      · cases strict
        exacts [.inl (by simp [Actor.noted]),
          .inr ⟨_, .refused r.tx, by simp [Actor.noted], h0, nofun⟩]
      · cases strict
        · exact Pc.serves_start ho.1 ho.2.1 (Actor.not_mem_noted (o := .refused r.tx) nofun ho.2.2 false)
            fun _ hn i op q he => ackStatus_of_ne _ _ fun hm => nomatch (ho.2.1 hn i op q he).2 hm
        · refine Pc.serves_finish ho.1 fun hn i op q he => ?_
          rw [(ho.2.1 hn i op q he).1 rfl]
          exact ackStatus_cons ..
      · cases strict
        exacts [Pc.start_eq_idle hi, Pc.finish_eq_idle.1 hi]
  | ack a =>
    obtain ⟨opId, code, hpc, ⟨-, rfl⟩ | ⟨-, rfl⟩⟩ := Sys.ack_eq hs
    · have hb := h.task a
      rw [hpc] at hb
      obtain ⟨-, o, ho, hid, hcode⟩ := hb.busy nofun
      obtain ⟨op, rfl, hop⟩ := OpInfo.ackId_eq_some.1 hid
      have hack : AckOf s.wire (s.actors a).opLog (s.actors a).sent
          ⟨a, ackFrame s.wire opId code, a, (s.actors a).opLog.length, true⟩ :=
        ⟨rfl, opId, op, code, ho, hop, rfl, hcode _ _ _ rfl⟩
      refine h.update_enqueue _ rfl rfl (fun b hb => by simp [hb]) (by simp) rfl rfl
        (.inl (by simp)) (fun _ => by simpa using hack) nofun nofun ?_
      rw [Sys.setActor_actors_self]
      exact hb.acked fun j => by simp [ackCount_append, eq_comm]
    · exact h.setActor [] rfl (.inl rfl) (h.task a).leave
  | cancel a =>
    obtain ⟨hk, hpc, rfl⟩ := Sys.cancel_eq hs
    have hb := h.task a
    rw [hk] at hb
    exact h.setActor [] rfl (.inl rfl) (hk ▸ hb.cancel hpc)
  | detach a =>
    obtain ⟨-, -, -, rfl⟩ := Sys.detach_eq hs
    exact h.setActor [] rfl (.inl rfl) (h.task a).leave
  | unregister a =>
    obtain ⟨-, rfl⟩ | ⟨-, rfl⟩ | ⟨-, rfl⟩ := Sys.unregister_eq hs <;>
      exact h.db.setActor [] rfl (.inl rfl) ((h.task a).retire rfl)
  | recv a =>
    obtain ⟨-, -, -, ⟨-, rfl⟩ | ⟨-, -, ⟨-, -, rfl⟩ | ⟨-, rfl⟩⟩⟩ := Sys.recv_eq hs <;>
      exact h.setActor [] rfl (.inl rfl) (h.task a)
  | write a fault =>
    obtain ⟨-, -, -, ⟨-, rfl⟩ | ⟨-, -, rfl⟩⟩ := Sys.write_eq hs <;>
      exact h.setActor [] rfl (.inl rfl) (h.task a)
  | flush a ok =>
    obtain ⟨-, ⟨-, rfl⟩ | ⟨-, rfl⟩⟩ := Sys.flush_eq hs <;>
      exact h.setActor [] rfl (.inl rfl) (h.task a)
  | abort a =>
    obtain ⟨-, -, -, rfl⟩ := Sys.abort_eq hs
    exact h.setActor [] rfl (.inl rfl) (h.task a)
  | dropRx a =>
    obtain ⟨-, -, rfl⟩ := Sys.dropRx_eq hs
    exact h.setActor [] rfl (.inl rfl) (h.task a)

theorem of_reachable (hs : Reachable s) : AckInv s := by
  induction hs with
  | init W q peers => exact init W q peers
  | step act _ hs ih => exact ih.step hs

end AckInv

/-! ### What the record of sends says -/

/-- What the record of sends says of the queues and the receivers. -/
structure SentInv (s : Sys) : Prop where
  /-- a `send!` recorded as taken put its op's frame on that queue -/
  taken : ∀ a k d, (k, Outcome.accepted d) ∈ (s.actors a).sent →
    ∃ f, (⟨d, ⟨f, ⟨a, k, false⟩⟩⟩ : Delivery) ∈ s.log
  /-- one recorded as refused met a receiver that is gone, and still is -/
  refused : ∀ a k d, (k, Outcome.refused d) ∈ (s.actors a).sent → (s.actors d).closed = true

namespace SentInv

variable {s s' : Sys}

theorem step {act : Action} (h : SentInv s) (hs : s.step act = some s') : SentInv s' := by
  have hk := Sys.step_keeps hs
  have old : ∀ {a k d}, (k, Outcome.accepted d) ∈ (s.actors a).sent →
      ∃ f, (⟨d, ⟨f, ⟨a, k, false⟩⟩⟩ : Delivery) ∈ s'.log := fun hm => by
    obtain ⟨f, hf⟩ := h.taken _ _ _ hm
    exact ⟨f, hk.log.subset hf⟩
  refine ⟨fun a k d hm => ?_, fun a k d hm => ?_⟩ <;>
    rcases hk.sent a with he | ⟨o, he, hr, ht⟩ <;> rw [he] at hm
  · exact old hm
  · rcases List.mem_cons.1 hm with hm | hm
    · cases hm
      exact ht d rfl
    · exact old hm
  · exact hk.closed d (h.refused a k d hm)
  · rcases List.mem_cons.1 hm with hm | hm
    · cases hm
      exact hk.closed d (hr d rfl)
    · exact hk.closed d (h.refused a k d hm)

theorem of_reachable (hs : Reachable s) : SentInv s := by
  induction hs with
  | init W q peers =>
    refine ⟨fun a k d hm => ?_, fun a k d hm => ?_⟩ <;> simp only [Sys.init] at hm <;>
      split at hm <;> cases hm
  | step act _ hs ih => exact ih.step hs

end SentInv

/-! ### What the acks guarantee -/

end Elbus
