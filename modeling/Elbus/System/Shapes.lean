import Elbus.System.Effects

/-!
# The shapes of queued frames

The writer task unwraps a routed frame's sender, subtracts its `payload_pos` from the
buffer's length and slices its payload; an in-process receiver hands the frame on as it is.
`ShapeInv` says that every frame a queue has accepted, and the frame of every dispatch in
progress, has one of the two shapes of `FrameData.WellShaped`: the producers are
`send_ack!` (a `Prepared` frame without sender) and the routing macros, whose `payload_pos`
is the target's length plus one for a body the reader split, or zero for an in-process call.

* `shapes_sound`: every queued frame has one of the two shapes, the writer task writes each
  without a panic, and its `recv` never ends it.
-/

namespace Elbus

/-- The frame of a dispatch in progress has one of the two shapes. -/
def Pc.WellShaped : Pc → Prop
  | .sending f _ _ _ => f.WellShaped
  | _ => True

theorem Pc.finish_wellShaped (ack : Option Bytes) (code : UInt8) :
    (Pc.finish ack code).WellShaped := by
  cases ack <;> trivial

theorem Pc.start_wellShaped {f : FrameData} (hf : f.WellShaped) (strict : Bool) (ack : Option Bytes)
    (ok : UInt8) (rs : List ElbusClient) : (Pc.start f strict ack ok rs).WellShaped := by
  cases rs
  · exact Pc.finish_wellShaped ack ok
  · exact hf

theorem ackFrame_wellShaped (W : Wire) (opId : Bytes) (code : UInt8) :
    (ackFrame W opId code).WellShaped := rfl

/-- Every frame on a queue, and the frame of every dispatch in progress, has one of the two
shapes. -/
structure ShapeInv (s : Sys) : Prop where
  log : ∀ d ∈ s.log, d.item.frame.WellShaped
  pc : ∀ a, (s.actors a).pc.WellShaped

namespace ShapeInv

variable {s s' : Sys} {a : Nat}

theorem init (W : Wire) (q : Nat) (peers : Nat → Option Bytes) :
    ShapeInv (Sys.init W q peers) := by
  refine ⟨fun d hd => absurd hd (List.not_mem_nil _), fun a => ?_⟩
  simp only [Sys.init]
  split <;> trivial

theorem setActor {x : Actor} (h : ShapeInv s) (hx : x.pc.WellShaped) : ShapeInv (s.setActor a x) :=
  ⟨h.log, fun b => by by_cases hb : b = a <;> simp [hb, hx, h.pc b]⟩

theorem enqueue {d : Nat} {it : QItem} (h : ShapeInv s) (hf : it.frame.WellShaped) :
    ShapeInv (s.enqueue d it) :=
  ⟨fun e he => by
    rcases List.mem_append.1 he with he | he
    exacts [h.log e he, List.mem_singleton.1 he ▸ hf], h.pc⟩

theorem db {db : BrokerDb} (h : ShapeInv s) : ShapeInv { s with db } := ⟨h.log, h.pc⟩

theorem handle {fr : OpFrame} (h : ShapeInv s) : ShapeInv (s.handle a fr) := by
  rcases Sys.handle_eq (s := s) (a := a) fr with ⟨-, he⟩ | ⟨-, he⟩ | ⟨-, he⟩ <;> rw [he]
  any_goals
    rw [Sys.handleTopics_eq]
    exact h.db.setActor (by split <;> first | exact Pc.finish_wellShaped _ _ | trivial)
  rcases Sys.handleRouted_eq (s := s) (a := a) fr.op fr.ackId fr.body with ⟨-, he⟩ | ⟨-, he⟩ |
    ⟨_, _, -, -, -, -, he⟩ | ⟨r, o, -, ho, he⟩ <;> rw [he]
  · exact h.setActor trivial
  · exact h
  · exact h.setActor (Pc.finish_wellShaped _ _)
  · exact h.setActor (Pc.start_wellShaped (wireOffer_wellShaped ho) ..)

theorem step {act : Action} (h : ShapeInv s) (hs : s.step act = some s') : ShapeInv s' := by
  cases act with
  | greet a fs =>
    obtain ⟨-, -, ⟨_, _, rfl⟩ | ⟨_, _, _, rfl⟩⟩ := Sys.peerGreet_eq hs <;> exact h.setActor (h.pc a)
  | register a fs =>
    obtain ⟨-, -, ⟨-, _, rfl⟩ | ⟨-, _, rfl | rfl⟩⟩ := Sys.peerRegister_eq hs
    · exact h.setActor (h.pc a)
    all_goals exact h.db.setActor (h.pc a)
  | attach a name =>
    obtain ⟨-, -, ⟨-, rfl⟩ | ⟨-, rfl⟩⟩ := Sys.attach_eq hs
    · exact h.db.setActor (h.pc a)
    · exact h.setActor (h.pc a)
  | read a fault =>
    obtain ⟨-, -, -, ⟨_, rfl⟩ | ⟨_, rfl⟩ | ⟨fr, _, -, rfl⟩⟩ := Sys.read_eq hs
    · exact h.setActor trivial
    · exact h.setActor (h.pc a)
    · refine ShapeInv.handle ?_
      exact h.setActor (h.pc a)
  | call a op =>
    obtain ⟨-, -, -, ⟨_, _, -, rfl⟩ | ⟨_, -, rfl⟩ | ⟨c, o, -, ho, rfl⟩⟩ := Sys.call_eq hs
    · rw [Sys.clientTopics_eq]
      refine ShapeInv.setActor (ShapeInv.db ?_) (by simpa using h.pc a)
      exact h.setActor (h.pc a)
    · refine ShapeInv.setActor ?_ (by simpa using h.pc a)
      exact h.setActor (h.pc a)
    · refine ShapeInv.setActor ?_ (Pc.start_wellShaped (clientOffer_wellShaped ho) ..)
      exact h.setActor (h.pc a)
  | deliver a =>
    obtain ⟨f, _, rest, strict, ack, hpc, ⟨-, rfl⟩ | ⟨-, rfl⟩⟩ := Sys.deliver_eq hs <;>
      have hf : f.WellShaped := by simpa [hpc, Pc.WellShaped] using h.pc a
    · exact (h.enqueue hf).setActor (Pc.start_wellShaped hf ..)
    · exact h.setActor (by split <;> first | exact Pc.finish_wellShaped _ _ |
        exact Pc.start_wellShaped hf ..)
  | ack a =>
    obtain ⟨_, _, -, ⟨-, rfl⟩ | ⟨-, rfl⟩⟩ := Sys.ack_eq hs
    · exact (h.enqueue (ackFrame_wellShaped ..)).setActor trivial
    · exact h.setActor trivial
  | cancel a =>
    obtain ⟨-, -, rfl⟩ := Sys.cancel_eq hs
    exact h.setActor trivial
  | detach a =>
    obtain ⟨-, -, -, rfl⟩ := Sys.detach_eq hs
    exact h.setActor trivial
  | unregister a =>
    obtain ⟨-, rfl⟩ | ⟨-, rfl⟩ | ⟨-, rfl⟩ := Sys.unregister_eq hs <;> exact h.db.setActor (h.pc a)
  | recv a =>
    obtain ⟨-, -, -, ⟨-, rfl⟩ | ⟨-, -, ⟨-, -, rfl⟩ | ⟨-, rfl⟩⟩⟩ := Sys.recv_eq hs <;>
      exact h.setActor (h.pc a)
  | write a fault =>
    obtain ⟨-, -, -, ⟨-, rfl⟩ | ⟨-, -, rfl⟩⟩ := Sys.write_eq hs <;> exact h.setActor (h.pc a)
  | flush a ok =>
    obtain ⟨-, ⟨-, rfl⟩ | ⟨-, rfl⟩⟩ := Sys.flush_eq hs <;> exact h.setActor (h.pc a)
  | abort a =>
    obtain ⟨-, -, -, rfl⟩ := Sys.abort_eq hs
    exact h.setActor (h.pc a)
  | dropRx a =>
    obtain ⟨-, -, rfl⟩ := Sys.dropRx_eq hs
    exact h.setActor (h.pc a)

theorem of_reachable (hs : Reachable s) : ShapeInv s := by
  induction hs with
  | init W q peers => exact init W q peers
  | step act _ hs ih => exact ih.step hs

theorem queued (h : ShapeInv s) {b : Nat} {it : QItem} (hit : it ∈ s.queue b) :
    it.frame.WellShaped := by
  obtain ⟨d, hd, rfl⟩ := List.mem_map.1 hit
  exact h.log d (List.mem_of_mem_filter hd)

end ShapeInv

/-- The two shapes, spelled out. -/
theorem FrameData.wellShaped_iff (f : FrameData) :
    f.WellShaped ↔ (f.kind = .prepared ∧ f.sender = none) ∨
      (f.kind ≠ .prepared ∧ f.sender.isSome ∧ (f.topic.isSome ↔ f.kind = .publish) ∧
        f.payloadPos ≤ f.buf.length) := by
  unfold FrameData.WellShaped
  split <;> simp_all

/-- What the shapes of queued frames guarantee in a state. -/
structure ShapesSound (s : Sys) : Prop where
  /-- each frame on a queue is a `Prepared` frame without sender, or a routed frame with a
  sender, a topic exactly when it is a publication, and its payload inside its buffer -/
  queued : ∀ a it, it ∈ s.queue a → (it.frame.kind = .prepared ∧ it.frame.sender = none) ∨
    (it.frame.kind ≠ .prepared ∧ it.frame.sender.isSome ∧
      (it.frame.topic.isSome ↔ it.frame.kind = .publish) ∧
      it.frame.payloadPos ≤ it.frame.buf.length)
  /-- the writer task writes each of them without a panic -/
  writes : ∀ a it, it ∈ s.queue a → (writeChunks s.wire it.frame).isSome
  /-- a connection's writer task that takes a frame goes on to write it -/
  recv : ∀ a s', s.step (.recv a) = some s' → (s.actors a).kind = .peer →
    ∃ cs, (s'.actors a).writer = .writing cs

/-- **Queued frames are well shaped over every run.** Every frame that `send_ack!`, `send!`,
`send_broadcast!`, `publish!` and the in-process `Client` put on a queue has one of the two
shapes, so the writer task's `frame.sender.as_ref().unwrap()`, `buf.len() - payload_pos` and
`frame.payload()` never panic. -/
theorem shapes_sound {s : Sys} (hs : Reachable s) : ShapesSound s := by
  have h := ShapeInv.of_reachable hs
  refine ⟨fun a it hit => (FrameData.wellShaped_iff _).1 (h.queued hit),
    fun a it hit => by simpa [frameBytes] using frameBytes_isSome s.wire (h.queued hit),
    fun a s' hs' hk => ?_⟩
  obtain ⟨-, it, hit, ⟨hk', -⟩ | ⟨-, -, ⟨cs, -, rfl⟩ | ⟨hn, -⟩⟩⟩ := Sys.recv_eq hs'
  · simp [hk] at hk'
  · exact ⟨_, by rw [Sys.setActor_actors, if_pos rfl]⟩
  · have hw := frameBytes_isSome s.wire (h.queued (List.get?_mem hit))
    simp [frameBytes, hn] at hw

/-- An in-process `Client` registers `a` and publishes to `.broker/warn`, the pattern every
client holds from its registration: its own queue accepts the frame, and the state reached
has the guarantees. -/
theorem shapes_sound_published :
    maskMatches subscriptionSyntax brokerWarnTopic brokerWarnTopic = true ∧
    ∀ W : Wire, ∃ s, (Sys.init W 1 fun _ => none).run
        [.attach 0 [0x61], .call 0 (.route (.publish brokerWarnTopic [0x21])), .deliver 0] =
          some s ∧
      (s.queue 0).length = 1 ∧ ShapesSound s :=
  ⟨by decide, fun W => by
    have hr : (Sys.init W 1 fun _ => none).run
        [.attach 0 [0x61], .call 0 (.route (.publish brokerWarnTopic [0x21])), .deliver 0] =
        some _ := rfl
    exact ⟨_, hr, rfl, shapes_sound (Reachable.run (.init W 1 fun _ => none) hr)⟩⟩

end Elbus
