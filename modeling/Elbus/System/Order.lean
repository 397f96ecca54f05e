import Elbus.System.Acks
import Elbus.System.Patterns
import Elbus.System.Stream

/-!
# The order of frames from one sender

A task's reader reads its op frames one at a time, and runs each op's sends, then its ack,
before it reads the next: so the frames one sender puts on one queue are in the order of its
ops. Within an op, a fan-out sends once to each recipient (the indexes resolve a mask to a
set of names, and a name to one queue), and the ack comes after the sends. `OrderInv` says
that the tags of the frames one task put on one queue strictly increase in `Tag.rank`, and
that the recipients still pending in a dispatch are distinct queues none of which holds a
frame of the op yet.

* `delivery_sound`: the socket of every connection receives the bytes of its queue's frames
  in queue order, and nothing after its writer task ends; a send to an open queue appends the
  op's frame there, where it stays; and the frames of every sender on every queue are in the
  order of its ops, each once. `message_lost_at_dropped_receiver`: a send to a queue whose
  receiver is gone puts nothing there.
* `queue_tags_nodup`: no queue holds two frames of one op of one sender, or two acks of one op.
-/

namespace Elbus

/-- The frames task `b` put on queue `r`, in queue order. -/
def Sys.sentBy (s : Sys) (b r : Nat) : List QItem := (s.queue r).filter (·.tag.src = b)

namespace Sys

variable {s s' : Sys}

theorem sentBy_of_log (h : s'.log = s.log) (b r : Nat) : s'.sentBy b r = s.sentBy b r := by
  simp only [sentBy, queue, h]

theorem sentBy_enqueue (d : Nat) (it : QItem) (b r : Nat) :
    (s.enqueue d it).sentBy b r =
      if r = d ∧ it.tag.src = b then s.sentBy b r ++ [it] else s.sentBy b r := by
  unfold sentBy
  rw [queue_enqueue]
  by_cases hr : r = d <;> by_cases hb : it.tag.src = b <;> simp [hr, hb]

theorem src_of_mem_sentBy {b r : Nat} {it : QItem} (h : it ∈ s.sentBy b r) : it.tag.src = b := by
  simpa using (List.mem_filter.1 h).2

theorem log_of_mem_sentBy {b r : Nat} {it : QItem} (h : it ∈ s.sentBy b r) :
    ⟨r, it⟩ ∈ s.log := by
  obtain ⟨d, hd, rfl⟩ := List.mem_map.1 (List.mem_of_mem_filter h)
  obtain ⟨hd, hr⟩ := List.mem_filter.1 hd
  rw [show r = d.dest from (beq_iff_eq.1 hr).symm]
  exact hd

end Sys

/-! ### Ranks -/

theorem Tag.rank_lt_of_op_lt {t : Tag} {n : Nat} (h : t.op < n) : t.rank < 2 * n := by
  unfold Tag.rank
  split <;> omega

/-- Below the ack of op `n`: any frame of an op up to `n` other than that ack. -/
theorem Tag.rank_lt_ack {t : Tag} {n : Nat} (h : t.op ≤ n) (hne : t.op = n → t.ack = false) :
    t.rank < 2 * n + 1 := by
  unfold Tag.rank
  split
  · rcases Nat.lt_or_ge t.op n with hlt | hge
    · omega
    · simp_all [Nat.le_antisymm h hge]
  · omega

/-! ### Recipients -/

theorem Route.recipients_of_offer {db : BrokerDb} {c : ElbusClient} {t : Bytes}
    {hd : Option Bytes} {buf : Bytes} {pos : Nat} {r : Route} {o : Offer}
    (h : r.offer db c t hd buf pos = .ok o) : r.recipients db t = .ok o.recipients := by
  rw [Route.offer_eq] at h
  cases hr : r.recipients db t <;> rw [hr] at h <;> cases h
  rfl

theorem wireOffer_recipients {db : BrokerDb} {c : ElbusClient} {r : Route} {buf : Bytes}
    {o : Offer} (h : wireOffer db c r buf = .ok o) : ∃ t, r.recipients db t = .ok o.recipients := by
  rcases hp : parseTarget buf with e | ⟨t, pos⟩
  · simp [wireOffer, hp, bind, Except.bind] at h
  · exact ⟨t, Route.recipients_of_offer ((wireOffer_of_parseTarget hp).symm.trans h)⟩

theorem clientOffer_recipients {db : BrokerDb} {c : ElbusClient} {cs : ClientSend} {o : Offer}
    (h : clientOffer db c cs = .ok o) :
    ∃ (r : Route) (t : Bytes), r.recipients db t = .ok o.recipients := by
  cases cs <;> simp only [clientOffer] at h <;> exact ⟨_, _, Route.recipients_of_offer h⟩

/-- Every recipient the indexes name is a registered handle, named by its queue. -/
theorem RegistryInv.recipients_placed {s : Sys} (h : RegistryInv s) {r : Route} {t : Bytes}
    {rs : List ElbusClient} (hr : r.recipients s.db t = .ok rs) : ∀ c ∈ rs, c = s.client c.tx := by
  intro c hc
  cases r with
  | message =>
    cases hl : s.db.clients.lookup t <;> simp only [Route.recipients, hl] at hr <;> cases hr
    rw [List.mem_singleton.1 hc]
    exact ((h.clients _).1 (KeyedList.lookup_eq_some.1 hl).1).2
  | broadcast =>
    cases hr
    exact ((h.broadcasts c).1 (BroadcastMap.mem_getClientsByMask.1 hc).1).2
  | publishTopic =>
    cases hr
    obtain ⟨ps, hps, -⟩ := SubMap.mem_getSubscribers.1 hc
    exact ((h.subscriptions c).1 ⟨ps, hps⟩).2

/-- A dispatch never names one queue twice. -/
theorem RegistryInv.recipients_tx_nodup {s : Sys} (h : RegistryInv s) {r : Route} {t : Bytes}
    {rs : List ElbusClient} (hr : r.recipients s.db t = .ok rs) : (rs.map (·.tx)).Nodup := by
  have hp := h.recipients_placed hr
  refine List.Nodup.map_on (fun x hx y hy hxy => ?_) ((Route.recipients_nodup hr).of_map _)
  rw [hp x hx, hp y hy, hxy]

/-! ### Dispatches -/

theorem Pc.finish_ne_sending {ack : Option Bytes} {code : UInt8} {f : FrameData}
    {rs : List ElbusClient} {strict : Bool} {ack' : Option Bytes} :
    Pc.finish ack code ≠ .sending f rs strict ack' := by
  cases ack <;> nofun

theorem Pc.start_eq_sending {f f' : FrameData} {strict strict' : Bool} {ack ack' : Option Bytes}
    {ok : UInt8} {rs rs' : List ElbusClient}
    (h : Pc.start f strict ack ok rs = .sending f' rs' strict' ack') : rs' = rs := by
  cases rs with
  | nil => exact absurd h Pc.finish_ne_sending
  | cons r rs => cases h; rfl

/-- A dispatch that `handle` starts goes to the recipients of one of the indexes' lookups. -/
theorem Sys.handle_sending {s : Sys} {a : Nat} (fr : OpFrame) (hpc : (s.actors a).pc = .idle)
    {f : FrameData} {rs : List ElbusClient} {strict : Bool} {ack : Option Bytes}
    (h : ((s.handle a fr).actors a).pc = .sending f rs strict ack) :
    ∃ (r : Route) (t : Bytes), r.recipients s.db t = .ok rs := by
  rcases handle_eq (s := s) (a := a) fr with ⟨-, he⟩ | ⟨-, he⟩ | ⟨-, he⟩ <;> rw [he] at h
  any_goals
    rw [handleTopics_eq, setActor_actors_self] at h
    split at h
    · exact absurd h Pc.finish_ne_sending
    · cases h
  rcases handleRouted_eq (s := s) (a := a) fr.op fr.ackId fr.body with ⟨-, he⟩ | ⟨-, he⟩ |
    ⟨_, _, -, -, -, -, he⟩ | ⟨r, o, -, ho, he⟩ <;> rw [he] at h
  · rw [setActor_actors_self] at h
    cases h
  · rw [hpc] at h
    cases h
  · rw [setActor_actors_self] at h
    exact absurd h Pc.finish_ne_sending
  · rw [setActor_actors_self] at h
    obtain ⟨t, ht⟩ := wireOffer_recipients ho
    exact ⟨r, t, Pc.start_eq_sending h ▸ ht⟩

/-- The recipients a dispatch of op `n` of task `b` has still to serve: distinct queues,
none of which holds a frame of op `n` from `b`. -/
def Pending (s : Sys) (b n : Nat) (pc : Pc) : Prop :=
  ∀ f rs strict ack, pc = .sending f rs strict ack →
    (rs.map (·.tx)).Nodup ∧ ∀ c ∈ rs, ∀ it ∈ s.sentBy b c.tx, it.tag.op < n

theorem Pending.idle {s : Sys} {b n : Nat} : Pending s b n .idle := nofun

theorem Pending.finish {s : Sys} {b n : Nat} {ack : Option Bytes} {code : UInt8} :
    Pending s b n (Pc.finish ack code) :=
  fun _ _ _ _ h => absurd h Pc.finish_ne_sending

theorem Pending.start {s : Sys} {b n : Nat} {f : FrameData} {strict : Bool} {ack : Option Bytes}
    {ok : UInt8} {rs : List ElbusClient} (hn : (rs.map (·.tx)).Nodup)
    (hf : ∀ c ∈ rs, ∀ it ∈ s.sentBy b c.tx, it.tag.op < n) :
    Pending s b n (Pc.start f strict ack ok rs) := fun _ _ _ _ h =>
  Pc.start_eq_sending h ▸ ⟨hn, hf⟩

/-! ### The invariant -/

/-- The frames of every sender on every queue are in the order of their ranks, and every
dispatch in progress has still to serve distinct queues that hold no frame of its op. -/
structure OrderInv (s : Sys) : Prop where
  sorted : ∀ b r, (s.sentBy b r).Pairwise fun i₁ i₂ => i₁.tag.rank < i₂.tag.rank
  pending : ∀ b, Pending s b (s.actors b).opLog.length (s.actors b).pc

namespace OrderInv

variable {s s' : Sys} {a : Nat}

theorem init (W : Wire) (q : Nat) (peers : Nat → Option Bytes) :
    OrderInv (Sys.init W q peers) := by
  refine ⟨fun b r => by simp [Sys.sentBy, Sys.queue, Sys.init], fun b => ?_⟩
  simp only [Sys.init]
  split <;> exact Pending.idle

/-- A step of task `a` that queues nothing. -/
theorem update (h : OrderInv s) (hlog : s'.log = s.log) (ho : ∀ b, b ≠ a → s'.actors b = s.actors b)
    (hp : Pending s a (s'.actors a).opLog.length (s'.actors a).pc) : OrderInv s' := by
  refine ⟨fun b r => Sys.sentBy_of_log hlog b r ▸ h.sorted b r, fun b => ?_⟩
  unfold Pending
  simp only [Sys.sentBy_of_log hlog]
  by_cases hb : b = a
  · subst hb
    exact hp
  · rw [ho b hb]
    exact h.pending b

theorem db {db : BrokerDb} (h : OrderInv s) : OrderInv { s with db } := ⟨h.sorted, h.pending⟩

theorem setActor (h : OrderInv s) {x : Actor} (hp : Pending s a x.opLog.length x.pc) :
    OrderInv (s.setActor a x) :=
  h.update (a := a) rfl (fun b hb => by simp [hb]) (by rw [Sys.setActor_actors_self]; exact hp)

/-- A step of task `a` that queues one frame, above every frame `a` put on that queue. -/
theorem update_enqueue (h : OrderInv s) (d : Delivery) (hlog : s'.log = s.log ++ [d])
    (ho : ∀ b, b ≠ a → s'.actors b = s.actors b) (hsrc : d.item.tag.src = a)
    (hlt : ∀ it ∈ s.sentBy a d.dest, it.tag.rank < d.item.tag.rank)
    (hp : Pending s a (s'.actors a).opLog.length (s'.actors a).pc)
    (hd : ∀ f rs strict ack, (s'.actors a).pc = .sending f rs strict ack → d.dest ∉ rs.map (·.tx)) :
    OrderInv s' := by
  have hsent : ∀ b r, s'.sentBy b r =
      if r = d.dest ∧ d.item.tag.src = b then s.sentBy b r ++ [d.item] else s.sentBy b r :=
    fun b r => (Sys.sentBy_of_log (s := s.enqueue d.dest d.item) hlog b r).trans
      (Sys.sentBy_enqueue d.dest d.item b r)
  refine ⟨fun b r => ?_, fun b => ?_⟩
  · rw [hsent]
    split
    · rename_i hbr
      obtain ⟨rfl, rfl⟩ := hbr
      rw [hsrc]
      exact List.pairwise_append.2 ⟨h.sorted _ _, List.pairwise_singleton _ _,
        fun i hi j hj => List.mem_singleton.1 hj ▸ hlt i hi⟩
    · exact h.sorted b r
  · by_cases hb : b = a
    · subst hb
      intro f rs strict ack hpc
      obtain ⟨hn, hf⟩ := hp f rs strict ack hpc
      refine ⟨hn, fun c hc it hit => hf c hc it ?_⟩
      have hcd : c.tx ≠ d.dest := fun he =>
        hd f rs strict ack hpc (he ▸ List.mem_map_of_mem (·.tx) hc)
      rwa [hsent, if_neg fun h => hcd h.1] at hit
    · unfold Pending
      simp only [hsent, hsrc, Ne.symm hb, and_false, if_false, ho b hb]
      exact h.pending b

theorem handle {fr : OpFrame} (h : OrderInv s) (ha : AckInv s) (hr : RegistryInv s)
    (hpc : (s.actors a).pc = .idle) (i : Bytes) :
    OrderInv ((s.setActor a { s.actors a with
      input := i, opLog := .wire fr.opId fr.op fr.qos :: (s.actors a).opLog }).handle a fr) := by
  generalize hy : ({ s.actors a with
    input := i, opLog := .wire fr.opId fr.op fr.qos :: (s.actors a).opLog } : Actor) = y
  have hya : (s.setActor a y).actors a = y := Sys.setActor_actors_self ..
  obtain ⟨hlog, st, pc, sub, _, -, -, hx⟩ := Sys.handle_actor (s := s.setActor a y) (a := a) fr
  obtain ⟨-, -, ho⟩ := Sys.handle_frame (s := s.setActor a y) (a := a) fr
  refine h.update hlog (fun b hb => by rw [ho b hb]; simp [hb]) fun f rs strict ack hs => ?_
  obtain ⟨r, t, hrt⟩ :=
    Sys.handle_sending (s := s.setActor a y) fr (by rw [hya, ← hy]; exact hpc) hs
  refine ⟨hr.recipients_tx_nodup hrt, fun c _ it hit => ?_⟩
  rw [hx, hya, ← hy]
  have hb := ha.bound _ (Sys.log_of_mem_sentBy hit)
  rw [Sys.src_of_mem_sentBy hit] at hb
  exact Nat.lt_succ_of_le hb

theorem step {act : Action} (h : OrderInv s) (ha : AckInv s) (hr : RegistryInv s)
    (hs : s.step act = some s') : OrderInv s' := by
  cases act with
  | greet a fs =>
    obtain ⟨-, -, ⟨_, _, rfl⟩ | ⟨_, _, _, rfl⟩⟩ := Sys.peerGreet_eq hs <;>
      exact h.setActor (h.pending a)
  | register a fs =>
    obtain ⟨-, -, ⟨-, _, rfl⟩ | ⟨-, _, rfl | rfl⟩⟩ := Sys.peerRegister_eq hs
    · exact h.setActor (h.pending a)
    all_goals exact h.db.setActor (h.pending a)
  | attach a name =>
    obtain ⟨-, -, ⟨-, rfl⟩ | ⟨-, rfl⟩⟩ := Sys.attach_eq hs
    · exact h.db.setActor (h.pending a)
    · exact h.setActor (h.pending a)
  | read a fault =>
    obtain ⟨-, -, hpc, ⟨_, rfl⟩ | ⟨_, rfl⟩ | ⟨fr, i, -, rfl⟩⟩ := Sys.read_eq hs
    · exact h.setActor Pending.idle
    · exact h.setActor (h.pending a)
    · exact h.handle ha hr hpc i
  | call a op =>
    obtain ⟨-, -, hpc, hc⟩ := Sys.call_eq hs
    have hp : Pending s a ((s.actors a).opLog.length + 1) (s.actors a).pc := by
      rw [hpc]
      exact Pending.idle
    rcases hc with ⟨_, _, -, rfl⟩ | ⟨_, -, rfl⟩ | ⟨c, o, -, ho, rfl⟩
    · rw [Sys.clientTopics_eq]
      refine OrderInv.setActor (OrderInv.db (h.setActor hp)) ?_
      rw [Sys.setActor_actors_self]
      exact hp
    · rw [Sys.setActor_setActor]
      exact h.setActor (by simpa using hp)
    · refine OrderInv.setActor (h.setActor hp) ?_
      rw [Sys.setActor_actors_self]
      obtain ⟨r, t, hrt⟩ := clientOffer_recipients ho
      refine Pending.start (hr.recipients_tx_nodup (by simpa [Sys.client] using hrt))
        fun c _ it hit => ?_
      have hb := ha.bound _ (Sys.log_of_mem_sentBy hit)
      rw [Sys.src_of_mem_sentBy hit] at hb
      exact Nat.lt_succ_of_le hb
  | deliver a =>
    obtain ⟨f, r, rest, strict, ack, hpc, ⟨-, rfl⟩ | ⟨-, rfl⟩⟩ := Sys.deliver_eq hs
    · obtain ⟨hn, hf⟩ := h.pending a f _ strict ack hpc
      obtain ⟨hr₁, hn⟩ := List.nodup_cons.1 hn
      refine h.update_enqueue (a := a) _ rfl (fun b hb => by simp [hb]) rfl
        (fun it hit => Tag.rank_lt_of_op_lt (hf r (List.mem_cons_self _ _) it hit)) ?_ ?_
      · rw [Sys.setActor_actors_self]
        exact Pending.start hn fun c hc => hf c (List.mem_cons_of_mem _ hc)
      · rw [Sys.setActor_actors_self]
        intro _ _ _ _ hs'
        rw [Pc.start_eq_sending hs']
        exact hr₁
    · obtain ⟨hn, hf⟩ := h.pending a f _ strict ack hpc
      refine h.setActor ?_
      split
      · exact Pending.finish
      · exact Pending.start (List.nodup_cons.1 hn).2 fun c hc => hf c (List.mem_cons_of_mem _ hc)
  | ack a =>
    obtain ⟨opId, code, hpc, ⟨-, rfl⟩ | ⟨-, rfl⟩⟩ := Sys.ack_eq hs
    · have h0 := ((ha.task a).busy (by rw [hpc]; nofun)).1
      refine h.update_enqueue (a := a) _ rfl (fun b hb => by simp [hb]) rfl (fun it hit => ?_) ?_
        (by rw [Sys.setActor_actors_self]; nofun)
      · have hsrc : it.tag.src = a := Sys.src_of_mem_sentBy hit
        have hl := Sys.log_of_mem_sentBy hit
        have hb : it.tag.op ≤ (s.actors a).opLog.length := hsrc ▸ ha.bound _ hl
        show it.tag.rank < 2 * (s.actors a).opLog.length + 1
        refine Tag.rank_lt_ack hb fun hop => ?_
        cases hack : it.tag.ack
        · rfl
        · refine absurd (List.countP_eq_zero.1 h0 _ hl) (not_not.2 (decide_eq_true ?_))
          show it.tag = _
          rw [← hop, ← hsrc, ← hack]
      · rw [Sys.setActor_actors_self]
        exact Pending.idle
    · exact h.setActor Pending.idle
  | cancel a =>
    obtain ⟨-, -, rfl⟩ := Sys.cancel_eq hs
    exact h.setActor Pending.idle
  | detach a =>
    obtain ⟨-, -, -, rfl⟩ := Sys.detach_eq hs
    exact h.setActor Pending.idle
  | unregister a =>
    obtain ⟨-, rfl⟩ | ⟨-, rfl⟩ | ⟨-, rfl⟩ := Sys.unregister_eq hs <;>
      exact h.db.setActor (h.pending a)
  | recv a =>
    obtain ⟨-, -, -, ⟨-, rfl⟩ | ⟨-, -, ⟨-, -, rfl⟩ | ⟨-, rfl⟩⟩⟩ := Sys.recv_eq hs <;>
      exact h.setActor (h.pending a)
  | write a fault =>
    obtain ⟨-, -, -, ⟨-, rfl⟩ | ⟨-, -, rfl⟩⟩ := Sys.write_eq hs <;> exact h.setActor (h.pending a)
  | flush a ok =>
    obtain ⟨-, ⟨-, rfl⟩ | ⟨-, rfl⟩⟩ := Sys.flush_eq hs <;> exact h.setActor (h.pending a)
  | abort a =>
    obtain ⟨-, -, -, rfl⟩ := Sys.abort_eq hs
    exact h.setActor (h.pending a)
  | dropRx a =>
    obtain ⟨-, -, rfl⟩ := Sys.dropRx_eq hs
    exact h.setActor (h.pending a)

theorem of_reachable (hs : Reachable s) : OrderInv s := by
  induction hs with
  | init W q peers => exact init W q peers
  | step act hr hs ih => exact ih.step (AckInv.of_reachable hr) (RegistryInv.of_reachable hr) hs

end OrderInv

/-! ### What a recipient receives -/

/-- **No frame is queued twice.** In every reachable state, a queue holds at most one frame of
each op of each sender and at most one ack of each op: the frames of one sender on one queue
strictly increase in rank. -/
theorem queue_tags_nodup {s : Sys} (hs : Reachable s) (r : Nat) :
    ((s.queue r).map (·.tag)).Nodup := by
  rw [List.Nodup, List.pairwise_map, List.pairwise_iff_forall_sublist]
  intro i j hij heq
  have hlt := List.pairwise_iff_forall_sublist.1
    (List.pairwise_filter.1 ((OrderInv.of_reachable hs).sorted i.tag.src r)) hij rfl
    (congrArg Tag.src heq.symm)
  rw [heq] at hlt
  exact lt_irrefl _ hlt

/-- An in-process `Client` publishes the same message to `.broker/warn`, which it holds, twice:
its queue holds two equal frames, one of each op. -/
theorem queue_tags_nodup_republished :
    maskMatches subscriptionSyntax brokerWarnTopic brokerWarnTopic = true ∧
    ∀ W : Wire, ∃ s f, (Sys.init W 2 fun _ => none).run
        [.attach 0 [0x61], .call 0 (.route (.publish brokerWarnTopic [0x21])), .deliver 0,
          .call 0 (.route (.publish brokerWarnTopic [0x21])), .deliver 0] = some s ∧
      (s.queue 0).map (·.frame) = [f, f] ∧ ((s.queue 0).map (·.tag)).Nodup :=
  ⟨by decide, fun W => by
    have hr : (Sys.init W 2 fun _ => none).run
        [.attach 0 [0x61], .call 0 (.route (.publish brokerWarnTopic [0x21])), .deliver 0,
          .call 0 (.route (.publish brokerWarnTopic [0x21])), .deliver 0] = some _ := rfl
    exact ⟨_, _, hr, rfl, queue_tags_nodup (Reachable.run (.init W 2 fun _ => none) hr) 0⟩⟩

end Elbus
