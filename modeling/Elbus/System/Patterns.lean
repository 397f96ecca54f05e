import Elbus.System.Registry

/-!
# Subscriptions over runs

`SubMap` keeps one pattern list per client. A task's `subLog` collects the changes applied
for it since its registration, newest first: the NUL-separated segments of each
`SubscribeTopic`/`UnsubscribeTopic` body it reads, in order and empty ones included, up to
the first that is not UTF-8; and the topics of its in-process `subscribe`/`unsubscribe`
calls. `held` reads such a log as a set of patterns, starting from `{.broker/warn}`.

* `PatternInv`: in every reachable state, the index holds for every task placed in it
  exactly the patterns its log leaves.
* `subscriptions_sound`: the index against the logs, what each step adds to a log,
  registration from `{.broker/warn}`, nothing held after unregistration, and the recipients
  and the sends of a publication.
* `publish_skips_closed_receiver`: a subscriber whose receiver is gone gets no frame from a
  publication that one of its patterns matches.
-/

namespace Elbus

/-! ### One change -/

/-- What a change does to a pattern list: `insert`, or `retain` of the other patterns. -/
def SubOp.apply : SubOp → List Bytes → List Bytes
  | .subscribe t, ps => ps.insert t
  | .unsubscribe t, ps => ps.filter (· != t)

theorem SubOp.run_eq (op : SubOp) (m : SubMap) (c : ElbusClient) :
    op.run m c = m.updatePatterns c op.apply := by
  cases op <;> rfl

/-- A change applied to the patterns a log leaves gives the patterns of the longer log. -/
theorem held_cons {ps : List Bytes} {log : List SubOp} (h : ∀ p, p ∈ ps ↔ held log p = true)
    (op : SubOp) (p : Bytes) : p ∈ op.apply ps ↔ held (op :: log) p = true := by
  cases op with
  | subscribe t =>
    simp only [SubOp.apply, held, List.mem_insert_iff, h, Bool.or_eq_true, beq_iff_eq]
    exact or_congr_left eq_comm
  | unsubscribe t =>
    simp only [SubOp.apply, held, List.mem_filter, h, Bool.and_eq_true, bne_iff_ne, ne_eq]
    exact and_comm.trans (and_congr_left' (not_congr eq_comm))

/-! ### The loops over topics -/

/-- The reader's loop logs the segments up to the first that is not UTF-8, in order. -/
theorem applyTopics_log_valid (mk : Bytes → SubOp) (c : ElbusClient) (v : Bytes → Bool)
    (m : SubMap) (log : List SubOp) (ts : List Bytes) :
    (applyTopics mk c (fun t _ => v t) (m, log) ts).2.1 =
      ((ts.takeWhile v).map mk).reverse ++ log := by
  induction ts generalizing m log with
  | nil => rfl
  | cons t ts ih =>
    simp only [applyTopics, List.takeWhile_cons]
    split <;> simp [ih]

/-- The in-process loop, for a registered client, logs every topic in order. -/
theorem applyTopics_log_registered (mk : Bytes → SubOp) (c : ElbusClient) (m : SubMap)
    (hc : c.name ∈ KeyedList.keys m) (log : List SubOp) (ts : List Bytes) :
    (applyTopics mk c (fun t m => ((mk t).run m c).1) (m, log) ts).2.1 =
      (ts.map mk).reverse ++ log := by
  induction ts generalizing m log with
  | nil => rfl
  | cons t ts ih =>
    have hrun : ((mk t).run m c).1 = true := by
      rw [SubOp.run_eq, SubMap.updatePatterns, if_pos hc]
    have hkeys : c.name ∈ KeyedList.keys ((mk t).run m c).2 := by
      rwa [SubOp.run_eq, SubMap.updatePatterns, if_pos hc, KeyedList.keys_modify]
    simp only [applyTopics, hrun, if_true]
    rw [ih _ hkeys]
    simp

namespace SubMap

/-- `m` holds `c` with exactly the patterns `log` leaves. -/
def Tracks (m : SubMap) (c : ElbusClient) (log : List SubOp) : Prop :=
  ∃ ps, (c, ps) ∈ m.items ∧ ∀ p, p ∈ ps ↔ held log p = true

variable {m : SubMap} {c d : ElbusClient} {log : List SubOp}

theorem Tracks.run (h : m.Tracks c log) (op : SubOp) : (op.run m c).2.Tracks c (op :: log) := by
  obtain ⟨ps, hm, hp⟩ := h
  exact ⟨op.apply ps, by rw [SubOp.run_eq, mem_updatePatterns]; exact ⟨ps, hm, by simp⟩,
    held_cons hp op⟩

theorem Tracks.run_other (h : m.Tracks d log) (hn : d.name ≠ c.name) (op : SubOp) :
    (op.run m c).2.Tracks d log := by
  obtain ⟨ps, hm, hp⟩ := h
  exact ⟨ps, by rw [SubOp.run_eq, mem_updatePatterns]; exact ⟨ps, hm, by simp [hn]⟩, hp⟩

theorem Tracks.applyTopics {mk : Bytes → SubOp} {ok : Bytes → SubMap → Bool} {ts : List Bytes}
    (h : m.Tracks c log) :
    (applyTopics mk c ok (m, log) ts).1.Tracks c (applyTopics mk c ok (m, log) ts).2.1 := by
  induction ts generalizing m log with
  | nil => exact h
  | cons t ts ih =>
    simp only [Elbus.applyTopics]
    split
    exacts [ih (h.run _), h]

theorem Tracks.applyTopics_other {mk : Bytes → SubOp} {ok : Bytes → SubMap → Bool}
    {ts : List Bytes} {l : List SubOp} (h : m.Tracks d l) (hn : d.name ≠ c.name) :
    (Elbus.applyTopics mk c ok (m, log) ts).1.Tracks d l := by
  induction ts generalizing m log with
  | nil => exact h
  | cons t ts ih =>
    simp only [Elbus.applyTopics]
    split
    exacts [ih (h.run_other hn _), h]

/-- A registration gives the new client `{.broker/warn}`. -/
theorem tracks_registered (hk : c.name ∉ KeyedList.keys m) :
    ((m.registerClient c).subscribe brokerWarnTopic c).2.Tracks c [] := by
  have h : (m.registerClient c).Tracks c [.unsubscribe brokerWarnTopic] :=
    ⟨[], mem_registerClient.2 (.inr ⟨rfl, rfl, hk⟩), fun p => by
      by_cases hw : p = brokerWarnTopic <;> simp [held, hw]⟩
  obtain ⟨ps, hm, hp⟩ := h.run (.subscribe brokerWarnTopic)
  refine ⟨ps, hm, fun p => (hp p).trans ?_⟩
  by_cases hw : p = brokerWarnTopic
  · simp [held, hw]
  · simp [held, hw, Ne.symm hw]

theorem Tracks.registered_other (h : m.Tracks d log) (hn : d.name ≠ c.name) :
    ((m.registerClient c).subscribe brokerWarnTopic c).2.Tracks d log := by
  obtain ⟨ps, hm, hp⟩ := h
  exact Tracks.run_other ⟨ps, mem_registerClient.2 (.inl hm), hp⟩ hn (.subscribe brokerWarnTopic)

theorem Tracks.unregister_other (h : m.Tracks d log) (hn : d.name ≠ c.name) :
    (m.unregisterClient c).Tracks d log := by
  obtain ⟨ps, hm, hp⟩ := h
  exact ⟨ps, mem_unregisterClient.2 ⟨hm, hn⟩, hp⟩

end SubMap

/-! ### The invariant -/

/-- Every task placed in `subscriptions` holds there exactly the patterns its log leaves. -/
def PatternInv (s : Sys) : Prop :=
  ∀ a, (s.actors a).stage.inSubscriptions →
    s.db.subscriptions.Tracks (s.client a) (s.actors a).subLog

namespace PatternInv

variable {s s' : Sys} {a : Nat}

theorem init (W : Wire) (q : Nat) (peers : Nat → Option Bytes) :
    PatternInv (Sys.init W q peers) := fun a h => by
  have hst : ((Sys.init W q peers).actors a).stage = .start := by
    simp only [Sys.init]
    split <;> rfl
  simp [hst, Stage.inSubscriptions] at h

/-- A change of a task that keeps its place, name and log. -/
theorem setActor {x : Actor} (h : PatternInv s)
    (hx : x.stage.inSubscriptions → (s.actors a).stage.inSubscriptions ∧
      x.name = (s.actors a).name ∧ x.subLog = (s.actors a).subLog) :
    PatternInv (s.setActor a x) := fun b hb => by
  by_cases hba : b = a
  · subst hba
    simp only [Sys.setActor_actors, if_true] at hb ⊢
    obtain ⟨hs, hn, hl⟩ := hx hb
    simpa [Sys.client_setActor, Sys.client, hn, hl] using h b hs
  · simpa [Sys.client_setActor, hba] using h b (by simpa [hba] using hb)

theorem enqueue {d : Nat} {it : QItem} (h : PatternInv s) : PatternInv (s.enqueue d it) := h

/-- Another registered task has another name. -/
theorem name_ne (hr : RegistryInv s) {b : Nat} (ha : (s.actors a).stage.inClients)
    (hb : (s.actors b).stage.inSubscriptions) (hba : b ≠ a) :
    (s.client b).name ≠ (s.actors a).name := fun hn =>
  hba (hr.unique (Stage.inClients_of_inBroadcasts (Stage.inBroadcasts_of_inSubscriptions hb)) ha hn)

/-- A change of task `a`'s patterns in the index, and of its log, that leaves every other
client's entry alone. -/
theorem update {m : SubMap} {x : Actor} (h : PatternInv s) (hr : RegistryInv s)
    (ha : (s.actors a).stage.inClients) (hn : x.name = (s.actors a).name)
    (hself : x.stage.inSubscriptions → m.Tracks (s.client a) x.subLog)
    (hother : ∀ d l, d.name ≠ (s.actors a).name → s.db.subscriptions.Tracks d l → m.Tracks d l) :
    PatternInv ({ s with db := { s.db with subscriptions := m } }.setActor a x) := fun b hb => by
  by_cases hba : b = a
  · subst hba
    simp only [Sys.setActor_actors, if_true] at hb ⊢
    simpa [Sys.client_setActor, Sys.client, hn] using hself hb
  · simp only [Sys.setActor_actors, hba, if_false] at hb ⊢
    simpa [Sys.client_setActor, hba] using
      hother _ _ (name_ne hr ha hb hba) (h b hb)

/-- A registration of a vacant name by a task not registered before. -/
theorem registered {name : Bytes} {x : Actor} (h : PatternInv s) (hr : RegistryInv s)
    (hfree : name ∉ s.db.clients.keys) (hn : x.name = name) (hl : x.subLog = []) :
    PatternInv ({ s with db := s.db.registered ⟨name, a⟩ }.setActor a x) := fun b hb => by
  have hsub : name ∉ KeyedList.keys s.db.subscriptions := fun hk =>
    hfree (((hr.keys_iff name).1).2 (by
      obtain ⟨c, ⟨hc, hcl⟩, hcn⟩ := ((hr.keys_iff name).2.2).1 hk
      exact ⟨c, ⟨Stage.inClients_of_inBroadcasts (Stage.inBroadcasts_of_inSubscriptions hc), hcl⟩,
        hcn⟩))
  by_cases hba : b = a
  · subst hba
    simpa [Sys.client_setActor, hn, hl] using SubMap.tracks_registered (c := ⟨name, b⟩) hsub
  · simp only [Sys.setActor_actors, hba, if_false] at hb
    have hk : (s.client b).name ≠ name := fun he => hfree (he ▸
      ((hr.keys_iff _).1).2 ⟨s.client b, ⟨Stage.inClients_of_inBroadcasts
        (Stage.inBroadcasts_of_inSubscriptions hb), rfl⟩, rfl⟩)
    simpa [Sys.client_setActor, hba, BrokerDb.registered] using
      (h b hb).registered_other (c := ⟨name, a⟩) hk

/-! #### One lemma per step -/

theorem handleTopics {mk : Bytes → SubOp} {ack : Option Bytes} {body : Bytes} (h : PatternInv s)
    (hr : RegistryInv s) (hl : (s.actors a).stage = .live) :
    PatternInv (s.handleTopics a mk ack body) := by
  have hs : (s.actors a).stage.inSubscriptions := by simp [hl, Stage.inSubscriptions]
  rw [Sys.handleTopics_eq]
  apply h.update hr (by simp [hl, Stage.inClients]) (by split <;> rfl)
  · intro _
    split <;> exact (h a hs).applyTopics
  · exact fun d l hd hdl => hdl.applyTopics_other hd

theorem handle {fr : OpFrame} (h : PatternInv s) (hr : RegistryInv s)
    (hl : (s.actors a).stage = .live) : PatternInv (s.handle a fr) := by
  rcases Sys.handle_eq (s := s) (a := a) fr with ⟨-, he⟩ | ⟨-, he⟩ | ⟨-, he⟩ <;> rw [he]
  · exact h.handleTopics hr hl
  · exact h.handleTopics hr hl
  · rcases Sys.handleRouted_eq (s := s) (a := a) fr.op fr.ackId fr.body with ⟨-, he⟩ | ⟨-, he⟩ |
      ⟨_, _, -, -, -, -, he⟩ | ⟨_, _, -, -, he⟩ <;> rw [he]
    · exact h.setActor fun _ => ⟨by simp [hl, Stage.inSubscriptions], rfl, rfl⟩
    · exact h
    all_goals exact h.setActor fun hs => ⟨hs, rfl, rfl⟩

theorem clientTopics {mk : Bytes → SubOp} {ts : List Bytes} (h : PatternInv s) (hr : RegistryInv s)
    (hl : (s.actors a).stage = .live) : PatternInv (s.clientTopics a mk ts) := by
  have hs : (s.actors a).stage.inSubscriptions := by simp [hl, Stage.inSubscriptions]
  rw [Sys.clientTopics_eq]
  exact h.update hr (by simp [hl, Stage.inClients]) rfl (fun _ => (h a hs).applyTopics)
    fun d l hd hdl => hdl.applyTopics_other hd

theorem step {act : Action} (h : PatternInv s) (hr : RegistryInv s)
    (hs : s.step act = some s') : PatternInv s' := by
  have same : ∀ {a x}, x.stage = (s.actors a).stage → x.name = (s.actors a).name →
      x.subLog = (s.actors a).subLog → PatternInv (s.setActor a x) :=
    fun hst hn hl => h.setActor fun hx => ⟨hst ▸ hx, hn, hl⟩
  have out : ∀ {a x}, x.stage.inSubscriptions = false → PatternInv (s.setActor a x) :=
    fun hx => h.setActor fun h' => absurd h' (by simp [hx])
  cases act with
  | greet a fs =>
    obtain ⟨-, -, ⟨_, _, rfl⟩ | ⟨_, _, _, rfl⟩⟩ := Sys.peerGreet_eq hs <;>
      exact out (by simp [Stage.inSubscriptions])
  | register a fs =>
    obtain ⟨-, -, ⟨-, _, rfl⟩ | ⟨hfree, _, rfl | rfl⟩⟩ := Sys.peerRegister_eq hs
    · exact out (by simp [Stage.inSubscriptions])
    all_goals exact h.registered hr hfree rfl rfl
  | attach a name =>
    obtain ⟨-, -, ⟨hfree, rfl⟩ | ⟨-, rfl⟩⟩ := Sys.attach_eq hs
    · exact h.registered hr hfree rfl rfl
    · exact out (by simp [Stage.inSubscriptions])
  | read a fault =>
    obtain ⟨-, hl, -, ⟨_, rfl⟩ | ⟨_, rfl⟩ | ⟨fr, _, -, rfl⟩⟩ := Sys.read_eq hs
    · exact h.setActor fun _ => ⟨by simp [hl, Stage.inSubscriptions], rfl, rfl⟩
    · exact same rfl rfl rfl
    · refine PatternInv.handle (same rfl rfl rfl) (hr.setActor_same rfl rfl rfl) ?_
      simpa using hl
  | call a op =>
    obtain ⟨-, hl, -, ⟨_, _, -, rfl⟩ | ⟨_, -, rfl⟩ | ⟨_, _, -, -, rfl⟩⟩ := Sys.call_eq hs
    · refine PatternInv.clientTopics (same rfl rfl rfl) (hr.setActor_same rfl rfl rfl) ?_
      simpa using hl
    all_goals
      refine PatternInv.setActor (same rfl rfl rfl) fun hx => ⟨?_, by simp, by simp⟩
      simpa using hx
  | deliver a =>
    obtain ⟨-, -, -, -, -, -, ⟨-, rfl⟩ | ⟨-, rfl⟩⟩ := Sys.deliver_eq hs
    · exact h.enqueue.setActor fun hx => ⟨hx, rfl, rfl⟩
    · exact same rfl rfl rfl
  | ack a =>
    obtain ⟨_, _, hpc, ⟨-, rfl⟩ | ⟨-, rfl⟩⟩ := Sys.ack_eq hs
    · exact h.enqueue.setActor fun hx => ⟨hx, rfl, rfl⟩
    · have hl := hr.live a (by simp [hpc])
      exact h.setActor fun _ => ⟨by simp [hl, Stage.inSubscriptions], rfl, rfl⟩
  | cancel a =>
    obtain ⟨-, -, rfl⟩ := Sys.cancel_eq hs
    exact same rfl rfl rfl
  | detach a =>
    obtain ⟨-, hl, -, rfl⟩ := Sys.detach_eq hs
    exact h.setActor fun _ => ⟨by simp [hl, Stage.inSubscriptions], rfl, rfl⟩
  | unregister a =>
    obtain ⟨hst, rfl⟩ | ⟨hst, rfl⟩ | ⟨hst, rfl⟩ := Sys.unregister_eq hs
    · exact h.update hr (by simp [hst, Stage.inClients]) rfl
        (fun hx => absurd hx (by simp [Stage.inSubscriptions]))
        fun d l hd hdl => hdl.unregister_other hd
    all_goals exact out (by simp [Stage.inSubscriptions])
  | recv a =>
    obtain ⟨-, -, -, ⟨-, rfl⟩ | ⟨-, -, ⟨-, -, rfl⟩ | ⟨-, rfl⟩⟩⟩ := Sys.recv_eq hs <;>
      exact same rfl rfl rfl
  | write a fault =>
    obtain ⟨-, -, -, ⟨-, rfl⟩ | ⟨-, -, rfl⟩⟩ := Sys.write_eq hs <;> exact same rfl rfl rfl
  | flush a ok =>
    obtain ⟨-, ⟨-, rfl⟩ | ⟨-, rfl⟩⟩ := Sys.flush_eq hs <;> exact same rfl rfl rfl
  | abort a =>
    obtain ⟨-, -, -, rfl⟩ := Sys.abort_eq hs
    exact same rfl rfl rfl
  | dropRx a =>
    obtain ⟨-, -, rfl⟩ := Sys.dropRx_eq hs
    exact same rfl rfl rfl

theorem of_reachable (hs : Reachable s) : PatternInv s := by
  induction hs with
  | init W q peers => exact init W q peers
  | step act hr hs ih => exact ih.step (RegistryInv.of_reachable hr) hs

/-- An entry of the index is the handle of a task placed there, with the patterns its log
leaves. -/
theorem entry (h : PatternInv s) (hr : RegistryInv s) {c : ElbusClient} {ps : List Bytes}
    (hc : (c, ps) ∈ s.db.subscriptions.items) :
    c = s.client c.tx ∧ (s.actors c.tx).stage.inSubscriptions ∧
      ∀ p, p ∈ ps ↔ held (s.actors c.tx).subLog p = true := by
  obtain ⟨hp, hcl⟩ := (hr.subscriptions c).1 ⟨ps, hc⟩
  obtain ⟨qs, hq, hqs⟩ := h c.tx hp
  rw [← hcl] at hq
  have hpq : ps = qs := congrArg Prod.snd (KeyedList.eq_of_key_eq _ hc hq rfl)
  exact ⟨hcl, hp, hpq ▸ hqs⟩

/-- Each task placed in the index has its entry. -/
theorem present (h : PatternInv s) (ha : (s.actors a).stage.inSubscriptions) :
    ∃ ps, (s.client a, ps) ∈ s.db.subscriptions.items :=
  let ⟨ps, hps, _⟩ := h a ha
  ⟨ps, hps⟩

/-- A task out of the index has no entry. -/
theorem absent (h : PatternInv s) (hr : RegistryInv s)
    (ha : (s.actors a).stage.inSubscriptions = false) (ps : List Bytes) :
    (s.client a, ps) ∉ s.db.subscriptions.items := fun hc => by
  have := (h.entry hr hc).2.1
  simp_all [Sys.client]

/-- The subscribers of a topic are the tasks placed in the index that hold a pattern
matching it, each once. -/
theorem subscribers (h : PatternInv s) (hr : RegistryInv s) (t : Bytes) :
    ((s.db.subscriptions.getSubscribers t).map ElbusClient.tx).Nodup ∧
      ∀ c, c ∈ s.db.subscriptions.getSubscribers t ↔
        (s.actors c.tx).stage.inSubscriptions ∧ c = s.client c.tx ∧
          ∃ p, held (s.actors c.tx).subLog p = true ∧ maskMatches subscriptionSyntax p t = true := by
  refine ⟨?_, fun c => ?_⟩
  · refine (s.db.subscriptions.getSubscribers_nodup t).of_map _ |>.map_on fun c hc d hd htx => ?_
    obtain ⟨ps, hps, -⟩ := SubMap.mem_getSubscribers.1 hc
    obtain ⟨qs, hqs, -⟩ := SubMap.mem_getSubscribers.1 hd
    rw [(h.entry hr hps).1, (h.entry hr hqs).1, htx]
  · rw [SubMap.mem_getSubscribers]
    constructor
    · rintro ⟨ps, hps, p, hp, hm⟩
      obtain ⟨hc, hin, hheld⟩ := h.entry hr hps
      exact ⟨hin, hc, p, (hheld p).1 hp, hm⟩
    · rintro ⟨hin, hc, p, hp, hm⟩
      obtain ⟨ps, hps, hheld⟩ := h c.tx hin
      rw [← hc] at hps
      exact ⟨ps, hps, p, (hheld p).2 hp, hm⟩

end PatternInv

/-! ### What a step does to a log -/

namespace Sys

variable {s s' : Sys} {a : Nat}

theorem handleTopics_subLog (mk : Bytes → SubOp) (ack : Option Bytes) (body : Bytes) :
    ((s.handleTopics a mk ack body).actors a).subLog =
      (((body.splitOn 0).takeWhile utf8Valid).map mk).reverse ++ (s.actors a).subLog := by
  rw [handleTopics_eq]
  split <;> simp [Actor.leave, applyTopics_log_valid]

theorem clientTopics_subLog (mk : Bytes → SubOp) (ts : List Bytes)
    (hc : (s.actors a).name ∈ KeyedList.keys s.db.subscriptions) :
    ((s.clientTopics a mk ts).actors a).subLog = (ts.map mk).reverse ++ (s.actors a).subLog := by
  rw [clientTopics_eq]
  simp [applyTopics_log_registered mk (s.client a) _ hc]

/-- A change of task `a` to `x` that keeps the log of `y` and places `x` in the index only
if `y` was. -/
theorem setActor_keeps {a : Nat} {x y : Actor} (hl : x.subLog = y.subLog)
    (hst : x.stage.inSubscriptions → y.stage.inSubscriptions) :
    ((s.setActor a x).actors a).subLog = y.subLog ∧
      (((s.setActor a x).actors a).stage.inSubscriptions → y.stage.inSubscriptions) := by
  simpa using ⟨hl, hst⟩

/-- A step leaves a task's log alone and does not place it in the index; or it is the task's
own registration, from the empty log; or its own read or call, while it is live. -/
theorem subLog_step {act : Action} (hr : RegistryInv s) (hs : s.step act = some s') (b : Nat) :
    ((s'.actors b).subLog = (s.actors b).subLog ∧
      ((s'.actors b).stage.inSubscriptions → (s.actors b).stage.inSubscriptions)) ∨
    (((∃ fs, act = .register b fs) ∨ ∃ n, act = .attach b n) ∧ (s'.actors b).subLog = []) ∨
    (((∃ f, act = .read b f) ∨ ∃ op, act = .call b op) ∧ (s.actors b).stage = .live) := by
  by_cases hb : b = act.actor
  swap
  · rw [(step_frame hs).2.2 b hb]
    exact .inl ⟨rfl, id⟩
  have out : ∀ {st : Stage}, st.inSubscriptions = false → st.inSubscriptions →
      (s.actors b).stage.inSubscriptions := fun h h' => absurd h' (by simp [h])
  have live : (s.actors b).stage = .live → ∀ {st : Stage}, st.inSubscriptions →
      (s.actors b).stage.inSubscriptions := fun h _ _ => by simp [h, Stage.inSubscriptions]
  subst hb
  cases act with
  | greet a fs =>
    obtain ⟨-, -, ⟨_, _, rfl⟩ | ⟨_, _, _, rfl⟩⟩ := peerGreet_eq hs <;>
      exact .inl (setActor_keeps rfl (out (by simp [Stage.inSubscriptions])))
  | register a fs =>
    obtain ⟨-, -, ⟨-, _, rfl⟩ | ⟨-, _, rfl | rfl⟩⟩ := peerRegister_eq hs
    · exact .inl (setActor_keeps rfl (out (by simp [Stage.inSubscriptions])))
    all_goals exact .inr (.inl ⟨.inl ⟨fs, rfl⟩, by simp [Action.actor]⟩)
  | attach a name =>
    obtain ⟨-, -, ⟨-, rfl⟩ | ⟨-, rfl⟩⟩ := attach_eq hs
    · exact .inr (.inl ⟨.inr ⟨name, rfl⟩, by simp [Action.actor]⟩)
    · exact .inl (setActor_keeps rfl (out (by simp [Stage.inSubscriptions])))
  | read a fault => exact .inr (.inr ⟨.inl ⟨fault, rfl⟩, (read_eq hs).2.1⟩)
  | call a op => exact .inr (.inr ⟨.inr ⟨op, rfl⟩, (call_eq hs).2.1⟩)
  | deliver a =>
    obtain ⟨-, -, -, -, -, -, ⟨-, rfl⟩ | ⟨-, rfl⟩⟩ := deliver_eq hs <;>
      exact .inl (setActor_keeps rfl id)
  | ack a =>
    obtain ⟨_, _, hpc, ⟨-, rfl⟩ | ⟨-, rfl⟩⟩ := ack_eq hs
    · exact .inl (setActor_keeps rfl id)
    · exact .inl (setActor_keeps rfl (live (hr.live a (by simp [hpc]))))
  | cancel a =>
    obtain ⟨-, -, rfl⟩ := cancel_eq hs
    exact .inl (setActor_keeps rfl id)
  | detach a =>
    obtain ⟨-, hl, -, rfl⟩ := detach_eq hs
    exact .inl (setActor_keeps rfl (live hl))
  | unregister a =>
    obtain ⟨-, rfl⟩ | ⟨-, rfl⟩ | ⟨-, rfl⟩ := unregister_eq hs <;>
      exact .inl (setActor_keeps rfl (out (by simp [Stage.inSubscriptions])))
  | recv a =>
    obtain ⟨-, -, -, ⟨-, rfl⟩ | ⟨-, -, ⟨-, -, rfl⟩ | ⟨-, rfl⟩⟩⟩ := recv_eq hs <;>
      exact .inl (setActor_keeps rfl id)
  | write a fault =>
    obtain ⟨-, -, -, ⟨-, rfl⟩ | ⟨-, -, rfl⟩⟩ := write_eq hs <;> exact .inl (setActor_keeps rfl id)
  | flush a ok =>
    obtain ⟨-, ⟨-, rfl⟩ | ⟨-, rfl⟩⟩ := flush_eq hs <;> exact .inl (setActor_keeps rfl id)
  | abort a =>
    obtain ⟨-, -, -, rfl⟩ := abort_eq hs
    exact .inl (setActor_keeps rfl id)
  | dropRx a =>
    obtain ⟨-, -, rfl⟩ := dropRx_eq hs
    exact .inl (setActor_keeps rfl id)

/-- A task enters the index only with the empty log. -/
theorem subLog_fresh {act : Action} (hr : RegistryInv s) (hs : s.step act = some s')
    (h0 : (s.actors a).stage.inSubscriptions = false)
    (h1 : (s'.actors a).stage.inSubscriptions = true) : (s'.actors a).subLog = [] := by
  rcases subLog_step hr hs a with ⟨-, hin⟩ | ⟨-, hl⟩ | ⟨-, hl⟩
  · simp_all
  · exact hl
  · simp [hl, Stage.inSubscriptions] at h0

/-- Only a task's own registration, read or call changes its log. -/
theorem subLog_changed {act : Action} (hr : RegistryInv s) (hs : s.step act = some s') (b : Nat)
    (hne : (s'.actors b).subLog ≠ (s.actors b).subLog) :
    (∃ fs, act = .register b fs) ∨ (∃ n, act = .attach b n) ∨ (∃ f, act = .read b f) ∨
      ∃ op, act = .call b op := by
  rcases subLog_step hr hs b with ⟨hl, -⟩ | ⟨hact | hact, -⟩ | ⟨hact | hact, -⟩
  · exact absurd hl hne
  · exact .inl hact
  · exact .inr (.inl hact)
  · exact .inr (.inr (.inl hact))
  · exact .inr (.inr (.inr hact))

/-- A `SubscribeTopic` or `UnsubscribeTopic` frame logs the segments of its body up to the
first that is not UTF-8. -/
theorem read_topics_subLog {fr : OpFrame} {i : Bytes} {mk : Bytes → SubOp}
    (hs : s.step (.read a false) = some s')
    (hf : readOpFrame s.wire (s.actors a).input = .ok (some fr, i))
    (hmk : fr.op = .subscribeTopic ∧ mk = SubOp.subscribe ∨
      fr.op = .unsubscribeTopic ∧ mk = SubOp.unsubscribe) :
    (s'.actors a).subLog =
      (((fr.body.splitOn 0).takeWhile utf8Valid).map mk).reverse ++ (s.actors a).subLog := by
  rw [read_frame_eq hs hf, handle_topics hmk, handleTopics_subLog]
  simp

/-- An in-process `subscribe` or `unsubscribe` call logs its topics, in order. -/
theorem call_topics_subLog {op : Call} {mk : Bytes → SubOp} {ts : List Bytes}
    (hr : RegistryInv s) (hs : s.step (.call a op) = some s') (hop : op.topics = some (mk, ts)) :
    (s'.actors a).subLog = (ts.map mk).reverse ++ (s.actors a).subLog := by
  obtain ⟨-, hl, -, ⟨mk', ts', hop', rfl⟩ | ⟨c, rfl, -⟩ | ⟨c, o, rfl, -⟩⟩ := call_eq hs
  · obtain ⟨rfl, rfl⟩ : mk = mk' ∧ ts = ts' := by simpa [hop] using hop'
    have hk := SubMap.name_mem_keys ((hr.subscriptions (s.client a)).2
      ⟨by simp [client, hl, Stage.inSubscriptions], rfl⟩)
    rw [clientTopics_subLog _ _ (by simpa [client] using hk)]
    simp
  all_goals simp [Call.topics] at hop

/-- `publish!` on a `PublishTopic` frame whose topic splits off. -/
theorem handle_publish {fr : OpFrame} {t : Bytes} {pos : Nat} (hop : fr.op = .publishTopic)
    (ht : parseTarget fr.body = .ok (t, pos)) :
    s.handle a fr = s.setActor a { s.actors a with
      pc := Pc.start (routed .publish (s.client a) (some t) none fr.body pos) false fr.ackId
        s.wire.responseOk (s.db.subscriptions.getSubscribers t) } := by
  have hroute : fr.op.route = some .publishTopic := by rw [hop]; rfl
  rcases handle_eq (s := s) (a := a) fr with ⟨h, -⟩ | ⟨h, -⟩ | ⟨-, he⟩
  · simp [hop] at h
  · simp [hop] at h
  rw [he]
  rcases handleRouted_eq (s := s) (a := a) fr.op fr.ackId fr.body with
    ⟨⟨e, he'⟩, -⟩ | ⟨hr, -⟩ | ⟨_, _, -, hr, -⟩ | ⟨r, o, hr, ho, he'⟩
  · simp [ht] at he'
  · simp [hroute] at hr
  · simp [hroute] at hr
  · obtain rfl := Option.some.inj (hroute.symm.trans hr)
    rw [wireOffer_of_parseTarget ht] at ho
    cases ho
    simp [he', publish]

/-- A `PublishTopic` frame starts a dispatch of the publication to the topic's subscribers,
one that skips a failed send. -/
theorem read_publish_pc {fr : OpFrame} {i t : Bytes} {pos : Nat}
    (hs : s.step (.read a false) = some s')
    (hf : readOpFrame s.wire (s.actors a).input = .ok (some fr, i)) (hop : fr.op = .publishTopic)
    (ht : parseTarget fr.body = .ok (t, pos)) :
    (s'.actors a).pc = Pc.start (routed .publish (s.client a) (some t) none fr.body pos) false
      fr.ackId s.wire.responseOk (s.db.subscriptions.getSubscribers t) := by
  rw [read_frame_eq hs hf, handle_publish hop ht]
  simp [client]

/-- Each send of a dispatch puts its frame on its recipient's queue, or nothing when that
receiver is gone, and a fan-out goes on to the next recipient. -/
theorem deliver_queue (hs : s.step (.deliver a) = some s') : ∃ f r rest strict ack,
    (s.actors a).pc = .sending f (r :: rest) strict ack ∧
    (∀ b, b ≠ r.tx → s'.queue b = s.queue b) ∧
    (((s.actors r.tx).closed = false ∧
        s'.queue r.tx = s.queue r.tx ++ [⟨f, ⟨a, (s.actors a).opLog.length, false⟩⟩]) ∨
      ((s.actors r.tx).closed = true ∧ s'.queue r.tx = s.queue r.tx)) ∧
    (strict = false → (s'.actors a).pc = Pc.start f false ack s.wire.responseOk rest) := by
  obtain ⟨f, r, rest, strict, ack, hpc, ⟨hc, rfl⟩ | ⟨hc, rfl⟩⟩ := deliver_eq hs
  · refine ⟨f, r, rest, strict, ack, hpc, fun b hb => ?_, .inl ⟨hc, ?_⟩, fun hst => by simp [hst]⟩
    · rw [queue_setActor, queue_enqueue, if_neg hb]
    · rw [queue_setActor, queue_enqueue, if_pos rfl]
  · exact ⟨f, r, rest, strict, ack, hpc, fun b _ => rfl, .inr ⟨hc, rfl⟩, fun hst => by simp [hst]⟩

end Sys

/-! ### Subscriptions over every run -/

/-- What the subscription index guarantees in a state, reading it as a set of (client,
pattern) pairs and a task's log as the changes applied for it since its registration. -/
structure SubscriptionsSound (s : Sys) : Prop where
  /-- each entry is the handle of a task placed in the index, with exactly the patterns its
  log leaves -/
  entry : ∀ c ps, (c, ps) ∈ s.db.subscriptions.items →
    c = s.client c.tx ∧ (s.actors c.tx).stage.inSubscriptions ∧
      ∀ p, p ∈ ps ↔ held (s.actors c.tx).subLog p = true
  /-- each task placed in the index has its entry -/
  present : ∀ a, (s.actors a).stage.inSubscriptions →
    ∃ ps, (s.client a, ps) ∈ s.db.subscriptions.items
  /-- no pattern is held for a task out of the index -/
  absent : ∀ a, (s.actors a).stage.inSubscriptions = false →
    ∀ ps, (s.client a, ps) ∉ s.db.subscriptions.items
  /-- a task enters the index with the empty log, that is with `{.broker/warn}` -/
  fresh : ∀ act s' a, s.step act = some s' → (s.actors a).stage.inSubscriptions = false →
    (s'.actors a).stage.inSubscriptions = true → (s'.actors a).subLog = []
  /-- a `SubscribeTopic` or `UnsubscribeTopic` frame adds the segments of its body, in
  order, empty ones included, up to the first that is not UTF-8 -/
  read_topics : ∀ a s' fr i mk, s.step (.read a false) = some s' →
    readOpFrame s.wire (s.actors a).input = .ok (some fr, i) →
    (fr.op = .subscribeTopic ∧ mk = SubOp.subscribe ∨
      fr.op = .unsubscribeTopic ∧ mk = SubOp.unsubscribe) →
    (s'.actors a).subLog =
      (((fr.body.splitOn 0).takeWhile utf8Valid).map mk).reverse ++ (s.actors a).subLog
  /-- an in-process call adds its topics, in order -/
  call_topics : ∀ a op s' mk ts, s.step (.call a op) = some s' → op.topics = some (mk, ts) →
    (s'.actors a).subLog = (ts.map mk).reverse ++ (s.actors a).subLog
  /-- no other step changes a log -/
  log_other : ∀ act s' b, s.step act = some s' → (s'.actors b).subLog ≠ (s.actors b).subLog →
    (∃ fs, act = .register b fs) ∨ (∃ n, act = .attach b n) ∨ (∃ f, act = .read b f) ∨
      ∃ op, act = .call b op
  /-- a `PublishTopic` frame to `t` is offered, once each, to exactly the tasks holding a
  pattern that matches `t` -/
  publish : ∀ a s' fr i t pos, s.step (.read a false) = some s' →
    readOpFrame s.wire (s.actors a).input = .ok (some fr, i) → fr.op = .publishTopic →
    parseTarget fr.body = .ok (t, pos) →
    ∃ f rs, (s'.actors a).pc = Pc.start f false fr.ackId s.wire.responseOk rs ∧
      (rs.map ElbusClient.tx).Nodup ∧
      ∀ c, c ∈ rs ↔ (s.actors c.tx).stage.inSubscriptions ∧ c = s.client c.tx ∧
        ∃ p, held (s.actors c.tx).subLog p = true ∧ maskMatches subscriptionSyntax p t = true
  /-- each send of a dispatch puts the frame on its recipient's queue, or nothing when that
  receiver is gone, and a fan-out goes on to the next recipient -/
  deliver : ∀ a s', s.step (.deliver a) = some s' → ∃ f r rest strict ack,
    (s.actors a).pc = .sending f (r :: rest) strict ack ∧
    (∀ b, b ≠ r.tx → s'.queue b = s.queue b) ∧
    (((s.actors r.tx).closed = false ∧
        s'.queue r.tx = s.queue r.tx ++ [⟨f, ⟨a, (s.actors a).opLog.length, false⟩⟩]) ∨
      ((s.actors r.tx).closed = true ∧ s'.queue r.tx = s.queue r.tx)) ∧
    (strict = false → (s'.actors a).pc = Pc.start f false ack s.wire.responseOk rest)

/-- **Subscriptions over every run.** In every reachable state, under any interleaving of
connections and in-process `Client`s, the index holds for each registered client exactly the
patterns its own changes since its registration leave from `{.broker/warn}`, and a
publication is offered once to each client holding a matching pattern; the offer reaches the
client's queue unless its receiver is gone. -/
theorem subscriptions_sound {s : Sys} (hs : Reachable s) : SubscriptionsSound s := by
  have hr := RegistryInv.of_reachable hs
  have h := PatternInv.of_reachable hs
  exact ⟨fun _ _ hc => h.entry hr hc, fun _ => h.present, fun _ ha => h.absent hr ha,
    fun _ _ _ hs' => Sys.subLog_fresh hr hs', fun _ _ _ _ _ hs' hf => Sys.read_topics_subLog hs' hf,
    fun _ _ _ _ _ hs' => Sys.call_topics_subLog hr hs', fun _ _ b hs' => Sys.subLog_changed hr hs' b,
    fun _ _ _ _ _ _ hs' hf hop ht => ⟨_, _, Sys.read_publish_pc hs' hf hop ht, h.subscribers hr _⟩,
    fun _ _ hs' => Sys.deliver_queue hs'⟩

/-- An in-process `Client` registers `a` on an empty broker; it holds `.broker/warn`, and the
state reached has the guarantees. -/
theorem subscriptions_sound_attached :
    held [] brokerWarnTopic = true ∧
    ∀ W : Wire, ∃ s, (Sys.init W 1 fun _ => none).step (.attach 0 [0x61]) = some s ∧
      (s.client 0, [brokerWarnTopic]) ∈ s.db.subscriptions.items ∧ SubscriptionsSound s :=
  ⟨by decide, fun W => ⟨_, rfl, of_decide_eq_true rfl,
    subscriptions_sound (.step (.attach 0 [0x61]) (.init W 1 fun _ => none) rfl)⟩⟩

/-- **A receiver that is gone gets nothing.** An in-process `Client` `c` registers, and so
holds `.broker/warn`, and drops its event channel; a connection `p` then sends a
`PublishTopic` to `.broker/warn`. The publication's dispatch runs to its end and puts a frame
on `p`'s own queue (`p` holds `.broker/warn` too), but none on `c`'s: `publish!` ignores the
failed send. -/
theorem publish_skips_closed_receiver :
    maskMatches subscriptionSyntax brokerWarnTopic brokerWarnTopic = true ∧
    ∀ W : Wire, ∃ s s', Reachable s ∧ s.wire = W ∧
      (s.client 0, [brokerWarnTopic]) ∈ s.db.subscriptions.items ∧
      readOpFrame s.wire (s.actors 1).input =
        .ok (some ⟨[0, 0, 0, 0], .publishTopic, .no, brokerWarnTopic ++ [0]⟩, []) ∧
      s.run [.read 1 false, .deliver 1, .deliver 1] = some s' ∧ (s'.actors 1).pc = .idle ∧
      s'.queue 0 = [] ∧ (s'.queue 1).length = 1 := by
  refine ⟨by decide, fun W => ?_⟩
  let fr : OpFrame := ⟨[0, 0, 0, 0], .publishTopic, .no, brokerWarnTopic ++ [0]⟩
  have hf : readOpFrame W (fr.encode W ++ []) = .ok (some fr, []) :=
    readOpFrame_encode W fr rfl (by decide) (by decide) []
  let peers : Nat → Option Bytes := fun a =>
    if a = 1 then some (greeting W ++ le16 [0x70].length ++ [0x70] ++ (fr.encode W ++ [])) else none
  have r₁ := Reachable.step (.attach 0 [0x63]) (.init W 1 peers) rfl
  have r₂ := Reachable.step (.dropRx 0) r₁ rfl
  have r₃ := Reachable.step (.greet 1 []) r₂ (by
    rw [Sys.step]
    apply Sys.peerGreet_ok [0x70] (fr.encode W ++ []) <;> first | rfl | decide)
  have r₄ := Reachable.step (.register 1 []) r₃ (by
    rw [Sys.step]
    apply Sys.peerRegister_ok <;> first | rfl | exact of_decide_eq_true rfl)
  refine ⟨_, ?t, r₄, rfl, of_decide_eq_true rfl, hf, ?_⟩
  rotate_left
  rw [Sys.run_cons]
  case h =>
    rw [Sys.step]
    apply Sys.read_of_frame <;> first | rfl | exact hf
  refine ⟨?_, ?_, ?_, ?_⟩
  · exact rfl
  all_goals rfl

end Elbus
