import Elbus.System.Order

/-!
# Progress of dispatches

A dispatch waits at `tx.send(frame).await` only while its recipient's queue is full. The
routing macros and `send_ack!` release every lock before that await, and the receiver of each
queue is a task of its own: a connection's writer task, or whoever reads an in-process
`Client`'s channel. `ProgressInv` says that each queue a dispatch has still to serve belongs to
a task that has registered, and that the writer task of a registered connection ends only
with its receiver dropped.

* `dispatch_progress`: with a queue bound above zero (`async_channel::bounded` refuses a zero
  capacity), in every reachable state a task in the middle of a dispatch can take its next
  send, or the receiver of the queue it waits on can take a frame, write or flush. A send
  never waits on the broker itself.
-/

namespace Elbus

/-- The stages of a task from its registration on. -/
def Stage.registered : Stage → Bool
  | .start | .named | .rejected => false
  | _ => true

theorem Stage.registered_of_inClients {st : Stage} (h : st.inClients) : st.registered := by
  cases st <;> simp_all [Stage.inClients, Stage.registered]

/-- Every recipient the indexes name is a handle in `clients`. -/
theorem RegistryInv.recipients_mem_clients {s : Sys} (h : RegistryInv s) {r : Route} {t : Bytes}
    {rs : List ElbusClient} (hr : r.recipients s.db t = .ok rs) :
    ∀ c ∈ rs, c ∈ s.db.clients.items := by
  intro c hc
  cases r with
  | message =>
    cases hl : s.db.clients.lookup t <;> simp only [Route.recipients, hl] at hr <;> cases hr
    rw [List.mem_singleton.1 hc]
    exact (KeyedList.lookup_eq_some.1 hl).1
  | broadcast =>
    cases hr
    obtain ⟨hst, hcl⟩ := (h.broadcasts c).1 (BroadcastMap.mem_getClientsByMask.1 hc).1
    exact (h.clients c).2 ⟨Stage.inClients_of_inBroadcasts hst, hcl⟩
  | publishTopic =>
    cases hr
    obtain ⟨ps, hps, -⟩ := SubMap.mem_getSubscribers.1 hc
    obtain ⟨hst, hcl⟩ := (h.subscriptions c).1 ⟨ps, hps⟩
    exact (h.clients c).2
      ⟨Stage.inClients_of_inBroadcasts (Stage.inBroadcasts_of_inSubscriptions hst), hcl⟩

/-- Every recipient the indexes name belongs to a registered task. -/
theorem RegistryInv.recipients_registered {s : Sys} (h : RegistryInv s) {r : Route} {t : Bytes}
    {rs : List ElbusClient} (hr : r.recipients s.db t = .ok rs) :
    ∀ c ∈ rs, (s.actors c.tx).stage.registered := fun c hc =>
  Stage.registered_of_inClients ((h.clients c).1 (h.recipients_mem_clients hr c hc)).1

/-- The queues dispatches wait on, and the writer tasks behind them. -/
structure ProgressInv (s : Sys) : Prop where
  /-- each queue a dispatch has still to serve belongs to a task that has registered -/
  pending : ∀ b f rs strict ack, (s.actors b).pc = .sending f rs strict ack →
    ∀ c ∈ rs, (s.actors c.tx).stage.registered
  /-- the writer task of a registered connection ends only with its receiver dropped -/
  writer : ∀ b, (s.actors b).kind = .peer → (s.actors b).stage.registered →
    (s.actors b).writer = .stopped → (s.actors b).closed = true

namespace ProgressInv

variable {s s' : Sys} {a : Nat}

theorem init (W : Wire) (q : Nat) (peers : Nat → Option Bytes) :
    ProgressInv (Sys.init W q peers) := by
  have hfresh : ∀ b, ∃ k i, (Sys.init W q peers).actors b = Actor.fresh k i := fun b => by
    simp only [Sys.init]
    split <;> exact ⟨_, _, rfl⟩
  refine ⟨fun b f rs strict ack hb => ?_, fun b _ hst => ?_⟩
  · obtain ⟨k, i, he⟩ := hfresh b
    rw [he] at hb
    cases hb
  · obtain ⟨k, i, he⟩ := hfresh b
    rw [he] at hst
    cases hst

theorem db {db : BrokerDb} (h : ProgressInv s) : ProgressInv { s with db } := ⟨h.pending, h.writer⟩

theorem enqueue {d : Nat} {it : QItem} (h : ProgressInv s) : ProgressInv (s.enqueue d it) :=
  ⟨h.pending, h.writer⟩

theorem of_actors (h : ProgressInv s) (he : s'.actors = s.actors) : ProgressInv s' :=
  ⟨fun b => he ▸ h.pending b, fun b => he ▸ h.writer b⟩

/-- A change of task `a` to a stage that is registered whenever the old one was keeps the
recipients registered. -/
theorem stage_setActor {x : Actor} (hreg : (s.actors a).stage.registered → x.stage.registered)
    {b : Nat} (hb : (s.actors b).stage.registered) :
    ((s.setActor a x).actors b).stage.registered := by
  rw [Sys.setActor_actors]
  split
  · subst_vars
    exact hreg hb
  · exact hb

/-- Task `a` becomes `x`: its stage stays registered, the dispatch it starts goes to
registered tasks, and its writer task ends only with its receiver dropped. -/
theorem setActor {x : Actor} (h : ProgressInv s)
    (hreg : (s.actors a).stage.registered → x.stage.registered)
    (hpc : ∀ f rs strict ack, x.pc = .sending f rs strict ack →
      ∀ c ∈ rs, (s.actors c.tx).stage.registered)
    (hw : x.kind = .peer → x.stage.registered → x.writer = .stopped → x.closed = true) :
    ProgressInv (s.setActor a x) := by
  refine ⟨fun b f rs strict ack hb c hc => stage_setActor hreg ?_, fun b => ?_⟩
  · rw [Sys.setActor_actors] at hb
    split at hb
    exacts [hpc f rs strict ack hb c hc, h.pending b f rs strict ack hb c hc]
  · rw [Sys.setActor_actors]
    split
    exacts [hw, h.writer b]

/-- A change of task `a` that `ProgressInv` does not see. -/
theorem setActor_same {x : Actor} (h : ProgressInv s) (hst : x.stage = (s.actors a).stage)
    (hpc : x.pc = (s.actors a).pc) (hk : x.kind = (s.actors a).kind)
    (hw : x.writer = (s.actors a).writer) (hc : x.closed = (s.actors a).closed) :
    ProgressInv (s.setActor a x) :=
  h.setActor (hst ▸ id) (hpc ▸ h.pending a) (hk ▸ hst ▸ hw ▸ hc ▸ h.writer a)

/-- A change of task `a`'s writer task that ends it only with its receiver dropped. -/
theorem setWriter {x : Actor} (h : ProgressInv s) (hst : x.stage = (s.actors a).stage)
    (hpc : x.pc = (s.actors a).pc) (hw : x.writer = .stopped → x.closed = true) :
    ProgressInv (s.setActor a x) :=
  h.setActor (hst ▸ id) (hpc ▸ h.pending a) fun _ _ => hw

theorem handle {fr : OpFrame} (h : ProgressInv s)
    (hrec : ∀ (r : Route) (t : Bytes) (rs : List ElbusClient), r.recipients s.db t = .ok rs →
      ∀ c ∈ rs, (s.actors c.tx).stage.registered)
    (hl : (s.actors a).stage = .live) (hpc : (s.actors a).pc = .idle) :
    ProgressInv (s.handle a fr) := by
  obtain ⟨-, -, hf⟩ := Sys.handle_frame (s := s) (a := a) fr
  obtain ⟨-, st, pc, sub, sent, hst, -, he⟩ := Sys.handle_actor (s := s) (a := a) fr
  have hact : (s.handle a fr).actors =
      (s.setActor a { s.actors a with stage := st, pc, subLog := sub, sent }).actors :=
    funext fun b => by
      by_cases hb : b = a
      · subst hb
        rw [he, Sys.setActor_actors_self]
      · rw [hf b hb, Sys.setActor_actors, if_neg hb]
  have hreg : ({ s.actors a with stage := st, pc, subLog := sub, sent } : Actor).stage.registered := by
    rcases hst with rfl | rfl <;> simp [hl, Stage.registered]
  refine (h.setActor (fun _ => hreg) (fun f rs strict ack hs c hc => ?_) fun hk _ =>
    h.writer a hk (by simp [hl, Stage.registered])).of_actors hact
  obtain ⟨r, t, hrt⟩ := Sys.handle_sending fr hpc (show ((s.handle a fr).actors a).pc = _ by
    rw [he]
    exact hs)
  exact hrec r t rs hrt c hc

/-- Every step keeps `ProgressInv`: a dispatch starts only to the recipients the indexes
name, no stage goes back before registration, and every end of a writer task drops its
receiver. -/
theorem step {act : Action} (h : ProgressInv s) (hr : RegistryInv s) (hs : s.step act = some s') :
    ProgressInv s' := by
  have hrec : ∀ (r : Route) (t : Bytes) (rs : List ElbusClient), r.recipients s.db t = .ok rs →
      ∀ c ∈ rs, (s.actors c.tx).stage.registered := fun _ _ _ hrt => hr.recipients_registered hrt
  cases act with
  | greet a fs =>
    obtain ⟨-, hst, ⟨_, _, rfl⟩ | ⟨_, _, _, rfl⟩⟩ := Sys.peerGreet_eq hs <;>
      exact h.setActor (fun h' => by simp [hst, Stage.registered] at h') (h.pending a)
        fun _ h' => by simp [Stage.registered] at h'
  | register a fs =>
    obtain ⟨-, hst, ⟨-, _, rfl⟩ | ⟨-, _, rfl | rfl⟩⟩ := Sys.peerRegister_eq hs
    · exact h.setActor (fun h' => by simp [hst, Stage.registered] at h') (h.pending a)
        fun _ h' => by simp [Stage.registered] at h'
    · exact h.db.setActor (fun _ => rfl) (h.pending a) fun _ _ _ => rfl
    · exact h.db.setActor (fun _ => rfl) (h.pending a) fun _ _ hw => by cases hw
  | attach a name =>
    obtain ⟨hk, hst, ⟨-, rfl⟩ | ⟨-, rfl⟩⟩ := Sys.attach_eq hs
    · exact h.db.setActor (fun _ => rfl) (h.pending a) fun hp => absurd (hk.symm.trans hp) nofun
    · exact h.setActor (fun h' => by simp [hst, Stage.registered] at h') (h.pending a)
        fun hp => absurd (hk.symm.trans hp) nofun
  | read a fault =>
    obtain ⟨-, hl, hpc, ⟨_, rfl⟩ | ⟨_, rfl⟩ | ⟨fr, _, -, rfl⟩⟩ := Sys.read_eq hs
    · exact h.setActor (fun _ => rfl) (fun _ _ _ _ hp => by cases hp)
        fun hk _ => h.writer a hk (by simp [hl, Stage.registered])
    · exact h.setActor_same rfl rfl rfl rfl rfl
    · refine ProgressInv.handle (h.setActor_same rfl rfl rfl rfl rfl)
        (fun r t rs hrt c hc => ?_) (by simp [hl]) (by simp [hpc])
      refine stage_setActor ?_ (hrec r t rs hrt c hc)
      exact id
  | call a op =>
    obtain ⟨hk, -, -, ⟨_, _, -, rfl⟩ | ⟨_, -, rfl⟩ | ⟨c, o, -, ho, rfl⟩⟩ := Sys.call_eq hs
    · rw [Sys.clientTopics_eq]
      refine ProgressInv.setActor_same (ProgressInv.db ?_) rfl rfl rfl rfl rfl
      exact h.setActor_same rfl rfl rfl rfl rfl
    · refine ProgressInv.setActor_same ?_ rfl rfl rfl rfl rfl
      exact h.setActor_same rfl rfl rfl rfl rfl
    · obtain ⟨r, t, hrt⟩ := clientOffer_recipients ho
      refine ProgressInv.setActor (h.setActor_same rfl rfl rfl rfl rfl) id
        (fun f rs strict ack hp c hc => ?_) fun hp => by simp [hk] at hp
      rw [Pc.start_eq_sending hp] at hc
      refine stage_setActor ?_ (hrec r t _ hrt c hc)
      exact id
  | deliver a =>
    obtain ⟨f, r, rest, strict, ack, hpc, ⟨-, rfl⟩ | ⟨-, rfl⟩⟩ := Sys.deliver_eq hs
    · refine h.enqueue.setActor id (fun f' rs strict' ack' hp c hc => ?_) (h.writer a)
      rw [Pc.start_eq_sending hp] at hc
      exact h.pending a f _ strict ack hpc c (List.mem_cons_of_mem r hc)
    · refine h.setActor id (fun f' rs strict' ack' hp c hc => ?_) (h.writer a)
      split at hp
      · exact absurd hp Pc.finish_ne_sending
      · rw [Pc.start_eq_sending hp] at hc
        exact h.pending a f _ strict ack hpc c (List.mem_cons_of_mem r hc)
  | ack a =>
    obtain ⟨_, _, hpc, ⟨-, rfl⟩ | ⟨-, rfl⟩⟩ := Sys.ack_eq hs
    · exact h.enqueue.setActor id (fun _ _ _ _ hp => by cases hp) (h.writer a)
    · exact h.setActor (fun _ => rfl) (fun _ _ _ _ hp => by cases hp) fun hk _ =>
        h.writer a hk (by simp [hr.live a (by simp [hpc]), Stage.registered])
  | cancel a =>
    obtain ⟨-, -, rfl⟩ := Sys.cancel_eq hs
    exact h.setActor id (fun _ _ _ _ hp => by cases hp) (h.writer a)
  | detach a =>
    obtain ⟨hk, -, -, rfl⟩ := Sys.detach_eq hs
    exact h.setActor (fun _ => rfl) (fun _ _ _ _ hp => by cases hp)
      fun hp => absurd (hk.symm.trans hp) nofun
  | unregister a =>
    obtain ⟨hst, rfl⟩ | ⟨hst, rfl⟩ | ⟨hst, rfl⟩ := Sys.unregister_eq hs <;>
      exact h.db.setActor (fun _ => rfl) (h.pending a) fun hk _ =>
        h.writer a hk (by simp [hst, Stage.registered])
  | recv a =>
    obtain ⟨-, -, -, ⟨-, rfl⟩ | ⟨-, -, ⟨-, -, rfl⟩ | ⟨-, rfl⟩⟩⟩ := Sys.recv_eq hs
    · exact h.setActor_same rfl rfl rfl rfl rfl
    · exact h.setWriter rfl rfl nofun
    · exact h.setWriter rfl rfl fun _ => rfl
  | write a fault =>
    obtain ⟨-, -, -, ⟨-, rfl⟩ | ⟨-, -, rfl⟩⟩ := Sys.write_eq hs
    · exact h.setWriter rfl rfl nofun
    · exact h.setWriter rfl rfl fun _ => rfl
  | flush a ok =>
    obtain ⟨-, ⟨-, rfl⟩ | ⟨-, rfl⟩⟩ := Sys.flush_eq hs
    · exact h.setWriter rfl rfl nofun
    · exact h.setWriter rfl rfl fun _ => rfl
  | abort a =>
    obtain ⟨-, -, -, rfl⟩ := Sys.abort_eq hs
    exact h.setWriter rfl rfl fun _ => rfl
  | dropRx a =>
    obtain ⟨-, -, rfl⟩ := Sys.dropRx_eq hs
    exact h.setWriter rfl rfl fun _ => rfl

theorem of_reachable (hs : Reachable s) : ProgressInv s := by
  induction hs with
  | init W q peers => exact init W q peers
  | step act hr hs ih => exact ih.step (RegistryInv.of_reachable hr) hs

end ProgressInv

/-- The receiver of a queue that holds a frame it has not taken can take a step: an
in-process reader takes the frame, and a connection's writer task takes it, writes, or
flushes. -/
theorem ProgressInv.receiver_step {s : Sys} (h : ProgressInv s) {b : Nat}
    (hreg : (s.actors b).stage.registered) (hc : (s.actors b).closed = false)
    (hlt : (s.actors b).taken < (s.queue b).length) :
    (s.step (.recv b)).isSome ∨ (s.step (.write b none)).isSome ∨
      (s.step (.flush b true)).isSome := by
  cases hk : (s.actors b).kind with
  | internal => exact .inl (Sys.recv_isSome hc hlt fun hp => absurd (hk.symm.trans hp) nofun)
  | peer =>
    cases hw : (s.actors b).writer with
    | stopped => simp [h.writer b hk hreg hw] at hc
    | waiting => exact .inl (Sys.recv_isSome hc hlt fun _ => hw)
    | writing cs =>
      cases cs with
      | nil => exact .inr (.inr (Sys.flush_isSome hw))
      | cons c cs => exact .inr (.inl (Sys.write_isSome hw))

/-- **A send never waits on the broker itself.** With a queue bound above zero, in every
reachable state a task in the middle of a dispatch (`send!`, `send_broadcast!`, `publish!`, or
an in-process `Client` call) can take its next `tx.send(frame).await`, or the receiver of the
queue it waits on can take the frame, write it, or flush it: the connection's writer task, or
the reader of an in-process client's channel. -/
theorem dispatch_progress {s : Sys} (hs : Reachable s) (hq : 0 < s.queueSize) {a : Nat}
    {f : FrameData} {r : ElbusClient} {rest : List ElbusClient} {strict : Bool}
    {ack : Option Bytes} (hpc : (s.actors a).pc = .sending f (r :: rest) strict ack) :
    (s.step (.deliver a)).isSome ∨ (s.step (.recv r.tx)).isSome ∨
      (s.step (.write r.tx none)).isSome ∨ (s.step (.flush r.tx true)).isSome := by
  have h := ProgressInv.of_reachable hs
  by_cases hd : (s.actors r.tx).closed = true ∨
      (s.queue r.tx).length < (s.actors r.tx).taken + s.queueSize
  · exact .inl (Sys.deliver_isSome hpc hd)
  · obtain ⟨hc, hfull⟩ := not_or.1 hd
    exact .inr (h.receiver_step (h.pending a f _ strict ack hpc r (List.mem_cons_self _ _))
      (Bool.eq_false_iff.2 hc) (by omega))

/-- A second message to an in-process client whose queue of one frame is full: the send waits,
and the client's reader can take the first frame. -/
theorem dispatch_progress_full :
    0 < 1 ∧ ∀ W : Wire, ∃ s f, (Sys.init W 1 fun _ => none).run
        [.attach 0 [0x61], .call 0 (.route (.send [0x61] [0x21])), .deliver 0,
          .call 0 (.route (.send [0x61] [0x21]))] = some s ∧
      (s.actors 0).pc = .sending f [⟨[0x61], 0⟩] true none ∧ s.step (.deliver 0) = none ∧
      ((s.step (.deliver 0)).isSome ∨ (s.step (.recv 0)).isSome ∨
        (s.step (.write 0 none)).isSome ∨ (s.step (.flush 0 true)).isSome) :=
  ⟨by decide, fun W => by
    obtain ⟨s, f, hr, hq, hpc, hd⟩ : ∃ s f, (Sys.init W 1 fun _ => none).run
        [.attach 0 [0x61], .call 0 (.route (.send [0x61] [0x21])), .deliver 0,
          .call 0 (.route (.send [0x61] [0x21]))] = some s ∧ s.queueSize = 1 ∧
        (s.actors 0).pc = .sending f [⟨[0x61], 0⟩] true none ∧ s.step (.deliver 0) = none :=
      ⟨_, _, rfl, rfl, rfl, rfl⟩
    exact ⟨s, f, hr, hpc, hd,
      dispatch_progress (Reachable.run (.init W 1 fun _ => none) hr) (hq ▸ Nat.one_pos) hpc⟩⟩

end Elbus
