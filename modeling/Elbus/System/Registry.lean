import Elbus.System.Effects

/-!
# The registry over runs

`register_client` runs as one critical section under the `clients` write lock, and
`unregister_client` as three (subscriptions, broadcasts, clients), with any other task's
steps between them. `RegistryInv` says that in every reachable state each index holds
exactly the handles of the tasks whose stage places them there, each under its task's name.

* `registry_sound`: a registration succeeds exactly on a vacant name, so no two tasks hold a
  registration of one name; when no unregistration is partway the three indexes hold the
  same names; and an entry leaves an index only through the unregistration of the task that
  registered it.
-/

namespace Elbus

/-- The clients a pattern index holds. -/
def SubMap.Has (m : SubMap) (c : ElbusClient) : Prop := ∃ ps, (c, ps) ∈ m.items

namespace Stage

theorem inClients_of_inBroadcasts {st : Stage} (h : st.inBroadcasts) : st.inClients := by
  cases st <;> simp_all [inBroadcasts, inClients]

theorem inBroadcasts_of_inSubscriptions {st : Stage} (h : st.inSubscriptions) :
    st.inBroadcasts := by
  cases st <;> simp_all [inBroadcasts, inSubscriptions]

end Stage

/-! ### Handles placed by stages -/

namespace Sys

/-- Task `c.tx` is in a stage `p` accepts, and `c` is its handle. -/
def Placed (s : Sys) (p : Stage → Bool) (c : ElbusClient) : Prop :=
  p (s.actors c.tx).stage = true ∧ c = s.client c.tx

/-- A task's change that keeps whether `p` accepts its stage, and its name while it does,
places the same handles. -/
theorem placed_setActor {s : Sys} {a : Nat} {x : Actor} {p : Stage → Bool}
    (hp : p x.stage = p (s.actors a).stage) (hn : p (s.actors a).stage → x.name = (s.actors a).name)
    (c : ElbusClient) : (s.setActor a x).Placed p c ↔ s.Placed p c := by
  unfold Placed
  by_cases h : c.tx = a
  · subst h
    simp only [setActor_actors, client_setActor, if_true, hp]
    exact and_congr_right fun hc => by rw [hn hc, client]
  · simp [client_setActor, h]

/-- A change of a task's stage that `p` does not see places the same handles. -/
theorem placed_setStage {s : Sys} {a : Nat} {st : Stage} {p : Stage → Bool}
    (hp : p st = p (s.actors a).stage) (c : ElbusClient) :
    (s.setActor a { s.actors a with stage := st }).Placed p c ↔ s.Placed p c :=
  placed_setActor (x := { s.actors a with stage := st }) hp (fun _ => rfl) c

/-- A registration by task `a`, whose stage `p` rejected before and accepts after, places
its handle besides the others. -/
theorem placed_insert {s : Sys} {a : Nat} {x : Actor} {p : Stage → Bool}
    {old new : ElbusClient → Prop} (hold : ∀ c, old c ↔ s.Placed p c)
    (hnew : ∀ c, new c ↔ old c ∨ c = ⟨x.name, a⟩) (hpa : p (s.actors a).stage = false)
    (hpx : p x.stage = true) (c : ElbusClient) : new c ↔ (s.setActor a x).Placed p c := by
  rw [hnew, hold]
  unfold Placed
  by_cases h : c.tx = a
  · subst h
    simp [hpa, hpx, client_setActor]
  · have hne : c ≠ ⟨x.name, a⟩ := fun hc => h (by rw [hc])
    simp [h, hne, client_setActor]

/-- An unregistration section of task `a`, whose stage `p` accepted before and rejects
after, removes its handle and no other. -/
theorem placed_erase {s : Sys} {a : Nat} {x : Actor} {p : Stage → Bool}
    {old new : ElbusClient → Prop} (hold : ∀ c, old c ↔ s.Placed p c)
    (huniq : ∀ c d, old c → old d → c.name = d.name → c = d)
    (hnew : ∀ c, new c ↔ old c ∧ c.name ≠ (s.actors a).name) (hpa : p (s.actors a).stage = true)
    (hpx : p x.stage = false) (c : ElbusClient) : new c ↔ (s.setActor a x).Placed p c := by
  rw [hnew]
  by_cases h : c.tx = a
  · subst h
    simp only [Placed, setActor_actors, if_true, hpx, Bool.false_eq_true, false_and, iff_false,
      not_and, not_not]
    exact fun hc => congrArg ElbusClient.name ((hold c).1 hc).2
  · have hpl : (s.setActor a x).Placed p c ↔ s.Placed p c := by simp [Placed, client_setActor, h]
    rw [hpl, ← hold]
    refine ⟨And.left, fun hc => ⟨hc, fun hn => h ?_⟩⟩
    rw [huniq c (s.client a) hc ((hold _).2 ⟨hpa, rfl⟩) hn]
    rfl

end Sys

/-! ### Pattern changes keep the clients -/

namespace SubMap

theorem has_updatePatterns {m : SubMap} {h c : ElbusClient} {g : List Bytes → List Bytes} :
    (m.updatePatterns h g).2.Has c ↔ m.Has c := by
  simp only [Has, mem_updatePatterns]
  exact ⟨fun ⟨_, qs, hq, _⟩ => ⟨qs, hq⟩, fun ⟨qs, hq⟩ => ⟨_, qs, hq, rfl⟩⟩

theorem has_run {m : SubMap} {c d : ElbusClient} (op : SubOp) : (op.run m c).2.Has d ↔ m.Has d := by
  cases op <;> exact has_updatePatterns

theorem has_applyTopics {mk : Bytes → SubOp} {c d : ElbusClient} {ok : Bytes → SubMap → Bool}
    (ts : List Bytes) (m : SubMap) (log : List SubOp) :
    (applyTopics mk c ok (m, log) ts).1.Has d ↔ m.Has d := by
  induction ts generalizing m log with
  | nil => rfl
  | cons t ts ih =>
    simp only [applyTopics]
    split
    · exact (ih _ _).trans (has_run _)
    · rfl

theorem has_registerClient {m : SubMap} {c d : ElbusClient} :
    (m.registerClient c).Has d ↔ m.Has d ∨ (d = c ∧ c.name ∉ KeyedList.keys m) := by
  simp only [Has, mem_registerClient]
  constructor
  · rintro ⟨ps, hp | ⟨rfl, -, hk⟩⟩
    exacts [.inl ⟨ps, hp⟩, .inr ⟨rfl, hk⟩]
  · rintro (⟨ps, hp⟩ | ⟨rfl, hk⟩)
    exacts [⟨ps, .inl hp⟩, ⟨[], .inr ⟨rfl, rfl, hk⟩⟩]

theorem has_unregisterClient {m : SubMap} {c d : ElbusClient} :
    (m.unregisterClient c).Has d ↔ m.Has d ∧ d.name ≠ c.name := by
  simp [Has, mem_unregisterClient]

/-- A pattern index holds one client per name. -/
theorem Has.eq_of_name {m : SubMap} {c d : ElbusClient} (hc : m.Has c) (hd : m.Has d)
    (h : c.name = d.name) : c = d := by
  obtain ⟨ps, hc⟩ := hc
  obtain ⟨qs, hd⟩ := hd
  exact congrArg Prod.fst (KeyedList.eq_of_key_eq m hc hd h)

theorem name_mem_keys {m : SubMap} {c : ElbusClient} (h : m.Has c) : c.name ∈ KeyedList.keys m :=
  let ⟨ps, hc⟩ := h
  KeyedList.mem_keys.2 ⟨(c, ps), hc, rfl⟩

end SubMap

/-! ### The invariant -/

/-- The registry matches the tasks: each index holds exactly the handles of the tasks whose
stage places them there; and only a live task has an op in progress. -/
structure RegistryInv (s : Sys) : Prop where
  clients : ∀ c, c ∈ s.db.clients.items ↔ s.Placed Stage.inClients c
  broadcasts : ∀ c, c ∈ s.db.broadcasts.items ↔ s.Placed Stage.inBroadcasts c
  subscriptions : ∀ c, s.db.subscriptions.Has c ↔ s.Placed Stage.inSubscriptions c
  live : ∀ a, (s.actors a).pc ≠ .idle → (s.actors a).stage = .live

/-- A change of a task that the registry does not see: the same index stages, and the same
name while registered. -/
structure Actor.SameEntries (x' x : Actor) : Prop where
  inClients : x'.stage.inClients = x.stage.inClients
  inBroadcasts : x'.stage.inBroadcasts = x.stage.inBroadcasts
  inSubscriptions : x'.stage.inSubscriptions = x.stage.inSubscriptions
  name : x.stage.inClients → x'.name = x.name

namespace Actor

theorem SameEntries.of_stage {x' x : Actor} (hs : x'.stage = x.stage) (hn : x'.name = x.name) :
    x'.SameEntries x :=
  ⟨by rw [hs], by rw [hs], by rw [hs], fun _ => hn⟩

/-- Between two stages outside `clients` the registry sees no change. -/
theorem SameEntries.unregistered {x' x : Actor} (h' : x'.stage.inClients = false)
    (h : x.stage.inClients = false) : x'.SameEntries x := by
  have hb : ∀ {st : Stage}, st.inClients = false →
      st.inBroadcasts = false ∧ st.inSubscriptions = false := by
    intro st
    cases st <;> simp [Stage.inClients, Stage.inBroadcasts, Stage.inSubscriptions]
  exact ⟨h'.trans h.symm, (hb h').1.trans (hb h).1.symm, (hb h').2.trans (hb h).2.symm,
    fun hc => absurd hc (by simp [h])⟩

/-- Leaving is not seen by the registry until its first section. -/
theorem leave_sameEntries {x y : Actor} (hy : y.stage = .live) (hn : x.name = y.name) :
    x.leave.SameEntries y := by
  constructor <;> simp [leave, hy, hn, Stage.inClients, Stage.inBroadcasts, Stage.inSubscriptions]

end Actor

namespace RegistryInv

variable {s : Sys}

theorem init (W : Wire) (q : Nat) (peers : Nat → Option Bytes) :
    RegistryInv (Sys.init W q peers) := by
  have hx : ∀ a, ((Sys.init W q peers).actors a).stage = .start ∧
      ((Sys.init W q peers).actors a).pc = .idle := fun a => by
    simp only [Sys.init]
    split <;> exact ⟨rfl, rfl⟩
  have hdb : (Sys.init W q peers).db = .default := rfl
  refine ⟨fun c => ?_, fun c => ?_, fun c => ?_, fun a h => absurd (hx a).2 h⟩ <;>
    simp [hdb, BrokerDb.default, Sys.Placed, SubMap.Has, (hx c.tx).1, Stage.inClients,
      Stage.inBroadcasts, Stage.inSubscriptions]

theorem live_setActor {a : Nat} {x : Actor} (h : RegistryInv s)
    (hpc : x.pc ≠ .idle → x.stage = .live) (b : Nat) :
    ((s.setActor a x).actors b).pc ≠ .idle → ((s.setActor a x).actors b).stage = .live := by
  by_cases hb : b = a
  · subst hb
    simpa using hpc
  · simpa [hb] using h.live b

theorem pc_idle {a : Nat} (h : RegistryInv s) (hst : (s.actors a).stage ≠ .live) :
    (s.actors a).pc = .idle :=
  Classical.not_not.1 fun hp => hst (h.live a hp)

theorem setActor {a : Nat} {x : Actor} (h : RegistryInv s) (hx : x.SameEntries (s.actors a))
    (hpc : x.pc ≠ .idle → x.stage = .live) : RegistryInv (s.setActor a x) where
  clients c := (h.clients c).trans (Sys.placed_setActor hx.inClients hx.name c).symm
  broadcasts c := (h.broadcasts c).trans (Sys.placed_setActor hx.inBroadcasts
    (fun hb => hx.name (Stage.inClients_of_inBroadcasts hb)) c).symm
  subscriptions c := (h.subscriptions c).trans (Sys.placed_setActor hx.inSubscriptions
    (fun hs => hx.name (Stage.inClients_of_inBroadcasts
      (Stage.inBroadcasts_of_inSubscriptions hs))) c).symm
  live := h.live_setActor hpc

/-- A change of a task's other fields. -/
theorem setActor_same {a : Nat} {x : Actor} (h : RegistryInv s) (hs : x.stage = (s.actors a).stage)
    (hn : x.name = (s.actors a).name) (hp : x.pc = (s.actors a).pc) :
    RegistryInv (s.setActor a x) :=
  h.setActor (.of_stage hs hn) fun hx => hs ▸ h.live a (hp ▸ hx)

/-- A live task's change of op. -/
theorem setActor_live {a : Nat} {x : Actor} (h : RegistryInv s) (hl : (s.actors a).stage = .live)
    (hs : x.stage = .live) (hn : x.name = (s.actors a).name) : RegistryInv (s.setActor a x) :=
  h.setActor (.of_stage (hs.trans hl.symm) hn) fun _ => hs

theorem leave {a : Nat} {x : Actor} (h : RegistryInv s) (hl : (s.actors a).stage = .live)
    (hn : x.name = (s.actors a).name) : RegistryInv (s.setActor a x.leave) :=
  h.setActor (Actor.leave_sameEntries hl hn) fun hp => absurd rfl hp

theorem enqueue {d : Nat} {it : QItem} (h : RegistryInv s) : RegistryInv (s.enqueue d it) :=
  ⟨h.clients, h.broadcasts, h.subscriptions, h.live⟩

theorem patterns {m : SubMap} (h : RegistryInv s)
    (hm : ∀ c, m.Has c ↔ s.db.subscriptions.Has c) :
    RegistryInv { s with db := { s.db with subscriptions := m } } :=
  ⟨h.clients, h.broadcasts, fun c => (hm c).trans (h.subscriptions c), h.live⟩

/-! #### Registration and the sections of unregistration -/

/-- A name registered while vacant, by a task not registered before. -/
theorem registered {a : Nat} {name : Bytes} {x : Actor} (h : RegistryInv s)
    (hfree : name ∉ s.db.clients.keys) (ha : (s.actors a).stage.inClients = false)
    (hx : x.stage = .live ∨ x.stage = .abandoned) (hn : x.name = name) (hpc : x.pc = .idle) :
    RegistryInv ({ s with db := s.db.registered ⟨name, a⟩ }.setActor a x) := by
  subst hn
  have hin : x.stage.inClients ∧ x.stage.inBroadcasts ∧ x.stage.inSubscriptions := by
    rcases hx with hx | hx <;> simp [hx, Stage.inClients, Stage.inBroadcasts, Stage.inSubscriptions]
  have ha' :
      (s.actors a).stage.inBroadcasts = false ∧ (s.actors a).stage.inSubscriptions = false := by
    revert ha
    cases (s.actors a).stage <;> simp [Stage.inClients, Stage.inBroadcasts, Stage.inSubscriptions]
  have hb : x.name ∉ s.db.broadcasts.keys := fun hk => by
    obtain ⟨c, hc, hn⟩ := KeyedList.mem_keys.1 hk
    obtain ⟨hp, hcl⟩ := (h.broadcasts c).1 hc
    exact hfree (KeyedList.mem_keys.2
      ⟨c, (h.clients c).2 ⟨Stage.inClients_of_inBroadcasts hp, hcl⟩, hn⟩)
  have hsub : x.name ∉ KeyedList.keys s.db.subscriptions := fun hk => by
    obtain ⟨e, he, hn⟩ := KeyedList.mem_keys.1 hk
    obtain ⟨hp, hcl⟩ := (h.subscriptions e.1).1 ⟨e.2, he⟩
    exact hfree (KeyedList.mem_keys.2 ⟨e.1, (h.clients e.1).2
      ⟨Stage.inClients_of_inBroadcasts (Stage.inBroadcasts_of_inSubscriptions hp), hcl⟩, hn⟩)
  refine ⟨Sys.placed_insert h.clients (fun c => ?_) ha hin.1,
    Sys.placed_insert h.broadcasts (fun c => ?_) ha'.1 hin.2.1,
    Sys.placed_insert h.subscriptions (fun c => ?_) ha'.2 hin.2.2,
    h.live_setActor fun hp => absurd hpc hp⟩
  · simp [BrokerDb.registered, KeyedList.mem_insert, hfree]
  · simp [BrokerDb.registered, BroadcastMap.registerClient, KeyedList.mem_insert, hb]
  · show ((s.db.subscriptions.registerClient _).subscribe brokerWarnTopic _).2.Has c ↔ _
    rw [SubMap.subscribe, SubMap.has_updatePatterns, SubMap.has_registerClient]
    simp [hsub]

/-- The `subscriptions` section of `unregister_client`. -/
theorem unregisterSubscriptions {a : Nat} (h : RegistryInv s)
    (hst : (s.actors a).stage = .leaving) :
    RegistryInv ({ s with db := s.db.unregisterSubscriptions (s.client a) }.setActor a
      { s.actors a with stage := .leftSubscriptions }) := by
  have hpc := h.pc_idle (a := a) (by simp [hst])
  refine ⟨fun c => (h.clients c).trans
      (Sys.placed_setStage (by simp [hst, Stage.inClients]) c).symm,
    fun c => (h.broadcasts c).trans
      (Sys.placed_setStage (by simp [hst, Stage.inBroadcasts]) c).symm,
    Sys.placed_erase h.subscriptions (fun _ _ => SubMap.Has.eq_of_name)
      (fun c => SubMap.has_unregisterClient) (by simp [hst, Stage.inSubscriptions]) rfl,
    h.live_setActor fun hp => absurd hpc hp⟩

/-- The `broadcasts` section of `unregister_client`. -/
theorem unregisterBroadcasts {a : Nat} (h : RegistryInv s)
    (hst : (s.actors a).stage = .leftSubscriptions) :
    RegistryInv ({ s with db := s.db.unregisterBroadcasts (s.client a) }.setActor a
      { s.actors a with stage := .leftBroadcasts }) := by
  have hpc := h.pc_idle (a := a) (by simp [hst])
  refine ⟨fun c => (h.clients c).trans
      (Sys.placed_setStage (by simp [hst, Stage.inClients]) c).symm,
    Sys.placed_erase h.broadcasts (fun _ _ hc hd => KeyedList.eq_of_key_eq _ hc hd)
      (fun c => KeyedList.mem_erase) (by simp [hst, Stage.inBroadcasts]) rfl,
    fun c => (h.subscriptions c).trans
      (Sys.placed_setStage (by simp [hst, Stage.inSubscriptions]) c).symm,
    h.live_setActor fun hp => absurd hpc hp⟩

/-- The `clients` section of `unregister_client`. -/
theorem unregisterClients {a : Nat} (h : RegistryInv s)
    (hst : (s.actors a).stage = .leftBroadcasts) :
    RegistryInv ({ s with db := s.db.unregisterClients (s.client a) }.setActor a
      { s.actors a with stage := .gone }) := by
  have hpc := h.pc_idle (a := a) (by simp [hst])
  refine ⟨Sys.placed_erase h.clients (fun _ _ hc hd => KeyedList.eq_of_key_eq _ hc hd)
      (fun c => KeyedList.mem_erase) (by simp [hst, Stage.inClients]) rfl,
    fun c => (h.broadcasts c).trans
      (Sys.placed_setStage (by simp [hst, Stage.inBroadcasts]) c).symm,
    fun c => (h.subscriptions c).trans
      (Sys.placed_setStage (by simp [hst, Stage.inSubscriptions]) c).symm,
    h.live_setActor fun hp => absurd hpc hp⟩

/-! #### One lemma per step -/

variable {s' : Sys} {a : Nat}

/-- A task outside the indexes that stays outside them. -/
theorem outside {x : Actor} (h : RegistryInv s) (ha : (s.actors a).stage.inClients = false)
    (hx : x.stage.inClients = false) (hpc : x.pc = (s.actors a).pc) :
    RegistryInv (s.setActor a x) :=
  h.setActor (.unregistered hx ha) fun hp => absurd (h.pc_idle fun hl => by simp [hl,
    Stage.inClients] at ha) (hpc ▸ hp)

theorem handleTopics {mk : Bytes → SubOp} {ack : Option Bytes} {body : Bytes} (h : RegistryInv s)
    (hl : (s.actors a).stage = .live) : RegistryInv (s.handleTopics a mk ack body) := by
  rw [Sys.handleTopics_eq]
  have hp := h.patterns (m := (applyTopics mk (s.client a) (fun t _ => utf8Valid t)
    (s.db.subscriptions, (s.actors a).subLog) (body.splitOn 0)).1)
    fun _ => SubMap.has_applyTopics _ _ _
  split
  · exact hp.setActor_live hl hl rfl
  · exact hp.leave hl rfl

theorem handleRouted {op : FrameOp} {ack : Option Bytes} {body : Bytes} (h : RegistryInv s)
    (hl : (s.actors a).stage = .live) : RegistryInv (s.handleRouted a op ack body) := by
  rcases Sys.handleRouted_eq (s := s) (a := a) op ack body with ⟨-, he⟩ | ⟨-, he⟩ |
    ⟨_, _, -, -, -, -, he⟩ | ⟨_, _, -, -, he⟩ <;> rw [he]
  · exact h.leave hl rfl
  · exact h
  all_goals exact h.setActor_live hl hl rfl

theorem handle {fr : OpFrame} (h : RegistryInv s) (hl : (s.actors a).stage = .live) :
    RegistryInv (s.handle a fr) := by
  rcases Sys.handle_eq (s := s) (a := a) fr with ⟨-, he⟩ | ⟨-, he⟩ | ⟨-, he⟩ <;> rw [he]
  exacts [h.handleTopics hl, h.handleTopics hl, h.handleRouted hl]

theorem clientTopics {mk : Bytes → SubOp} {ts : List Bytes} (h : RegistryInv s) :
    RegistryInv (s.clientTopics a mk ts) := by
  rw [Sys.clientTopics_eq]
  exact (h.patterns fun c => SubMap.has_applyTopics ts _ _).setActor_same rfl rfl rfl

theorem step {act : Action} (h : RegistryInv s) (hs : s.step act = some s') : RegistryInv s' := by
  cases act with
  | greet a fs =>
    obtain ⟨-, hst, ⟨_, _, rfl⟩ | ⟨_, _, _, rfl⟩⟩ := Sys.peerGreet_eq hs <;>
      exact h.outside (by simp [hst, Stage.inClients]) (by simp [Stage.inClients]) rfl
  | register a fs =>
    obtain ⟨-, hst, ⟨-, _, rfl⟩ | ⟨hfree, _, rfl | rfl⟩⟩ := Sys.peerRegister_eq hs
    · exact h.outside (by simp [hst, Stage.inClients]) (by simp [Stage.inClients]) rfl
    all_goals
      exact h.registered hfree (by simp [hst, Stage.inClients]) (by simp) rfl
        (h.pc_idle (by simp [hst]))
  | attach a name =>
    obtain ⟨-, hst, ⟨hfree, rfl⟩ | ⟨-, rfl⟩⟩ := Sys.attach_eq hs
    · exact h.registered hfree (by simp [hst, Stage.inClients]) (by simp) rfl
        (h.pc_idle (by simp [hst]))
    · exact h.outside (by simp [hst, Stage.inClients]) (by simp [Stage.inClients]) rfl
  | read a fault =>
    obtain ⟨-, hl, -, ⟨_, rfl⟩ | ⟨_, rfl⟩ | ⟨fr, _, -, rfl⟩⟩ := Sys.read_eq hs
    · exact h.leave hl rfl
    · exact h.setActor_same rfl rfl rfl
    · refine RegistryInv.handle ?_ (by simpa using hl)
      exact h.setActor_same rfl rfl rfl
  | call a op =>
    obtain ⟨-, hl, -, ⟨_, _, -, rfl⟩ | ⟨_, -, rfl⟩ | ⟨_, _, -, -, rfl⟩⟩ := Sys.call_eq hs
    · refine RegistryInv.clientTopics ?_
      exact h.setActor_same rfl rfl rfl
    · refine RegistryInv.setActor_same ?_ rfl rfl rfl
      exact h.setActor_same rfl rfl rfl
    · refine RegistryInv.setActor_live ?_ (by simpa using hl) (by simpa using hl) rfl
      exact h.setActor_same rfl rfl rfl
  | deliver a =>
    obtain ⟨_, _, _, _, _, hpc, ⟨-, rfl⟩ | ⟨-, rfl⟩⟩ := Sys.deliver_eq hs
    · exact h.enqueue.setActor_live (h.live a (by simp [hpc])) (h.live a (by simp [hpc])) rfl
    · exact h.setActor_live (h.live a (by simp [hpc])) (h.live a (by simp [hpc])) rfl
  | ack a =>
    obtain ⟨_, _, hpc, ⟨-, rfl⟩ | ⟨-, rfl⟩⟩ := Sys.ack_eq hs
    · exact h.enqueue.setActor_live (h.live a (by simp [hpc])) (h.live a (by simp [hpc])) rfl
    · exact h.leave (h.live a (by simp [hpc])) rfl
  | cancel a =>
    obtain ⟨-, -, rfl⟩ := Sys.cancel_eq hs
    exact h.setActor (.of_stage rfl rfl) fun hp => absurd rfl hp
  | detach a =>
    obtain ⟨-, hl, -, rfl⟩ := Sys.detach_eq hs
    exact h.leave hl rfl
  | unregister a =>
    obtain ⟨hst, rfl⟩ | ⟨hst, rfl⟩ | ⟨hst, rfl⟩ := Sys.unregister_eq hs
    exacts [h.unregisterSubscriptions hst, h.unregisterBroadcasts hst, h.unregisterClients hst]
  | recv a =>
    obtain ⟨-, -, -, ⟨-, rfl⟩ | ⟨-, -, ⟨-, -, rfl⟩ | ⟨-, rfl⟩⟩⟩ := Sys.recv_eq hs <;>
      exact h.setActor_same rfl rfl rfl
  | write a fault =>
    obtain ⟨-, -, -, ⟨-, rfl⟩ | ⟨-, -, rfl⟩⟩ := Sys.write_eq hs <;> exact h.setActor_same rfl rfl rfl
  | flush a ok =>
    obtain ⟨-, ⟨-, rfl⟩ | ⟨-, rfl⟩⟩ := Sys.flush_eq hs <;> exact h.setActor_same rfl rfl rfl
  | abort a =>
    obtain ⟨-, -, -, rfl⟩ := Sys.abort_eq hs
    exact h.setActor_same rfl rfl rfl
  | dropRx a =>
    obtain ⟨-, -, rfl⟩ := Sys.dropRx_eq hs
    exact h.setActor_same rfl rfl rfl

theorem of_reachable (h : Reachable s) : RegistryInv s := by
  induction h with
  | init W q peers => exact init W q peers
  | step act _ hs ih => exact ih.step hs

end RegistryInv

/-! ### Entries leave only through unregistration -/

/-- No entry leaves an index. -/
structure Grows (s s' : Sys) : Prop where
  clients : ∀ c ∈ s.db.clients.items, c ∈ s'.db.clients.items
  broadcasts : ∀ c ∈ s.db.broadcasts.items, c ∈ s'.db.broadcasts.items
  subscriptions : ∀ c, s.db.subscriptions.Has c → s'.db.subscriptions.Has c

namespace Grows

variable {s s' : Sys} {a : Nat}

theorem of_db (h : s'.db = s.db) : Grows s s' :=
  ⟨fun _ hc => h ▸ hc, fun _ hc => h ▸ hc, fun _ hc => h ▸ hc⟩

theorem trans {s'' : Sys} (h : Grows s s') (h' : Grows s' s'') : Grows s s'' :=
  ⟨fun c hc => h'.clients c (h.clients c hc), fun c hc => h'.broadcasts c (h.broadcasts c hc),
    fun c hc => h'.subscriptions c (h.subscriptions c hc)⟩

theorem setActor {x : Actor} : Grows s (s.setActor a x) := of_db rfl

theorem patterns {m : SubMap} {x : Actor} (hm : ∀ c, m.Has c ↔ s.db.subscriptions.Has c) :
    Grows s ({ s with db := { s.db with subscriptions := m } }.setActor a x) :=
  ⟨fun _ hc => hc, fun _ hc => hc, fun c hc => (hm c).2 hc⟩

theorem registered {c : ElbusClient} {x : Actor} :
    Grows s ({ s with db := s.db.registered c }.setActor a x) := by
  refine ⟨fun d hd => ?_, fun d hd => ?_, fun d hd => ?_⟩
  · simp [BrokerDb.registered, KeyedList.mem_insert, hd]
  · simp [BrokerDb.registered, BroadcastMap.registerClient, KeyedList.mem_insert, hd]
  · show ((s.db.subscriptions.registerClient c).subscribe brokerWarnTopic c).2.Has d
    rw [SubMap.subscribe, SubMap.has_updatePatterns, SubMap.has_registerClient]
    exact .inl hd

theorem handle {fr : OpFrame} : Grows s (s.handle a fr) := by
  rcases Sys.handle_eq (s := s) (a := a) fr with ⟨-, he⟩ | ⟨-, he⟩ | ⟨-, he⟩ <;> rw [he]
  any_goals
    rw [Sys.handleTopics_eq]
    exact patterns fun c => SubMap.has_applyTopics _ _ _
  rcases Sys.handleRouted_eq (s := s) (a := a) fr.op fr.ackId fr.body with ⟨-, he⟩ | ⟨-, he⟩ |
    ⟨_, _, -, -, -, -, he⟩ | ⟨_, _, -, -, he⟩ <;> rw [he]
  · exact setActor
  · exact of_db rfl
  all_goals exact setActor

/-- Every step but an unregistration section only adds entries. -/
theorem step {act : Action} (hs : s.step act = some s') (hact : ∀ b, act ≠ .unregister b) :
    Grows s s' := by
  cases act with
  | greet a fs =>
    obtain ⟨-, -, ⟨_, _, rfl⟩ | ⟨_, _, _, rfl⟩⟩ := Sys.peerGreet_eq hs <;> exact setActor
  | register a fs =>
    obtain ⟨-, -, ⟨-, _, rfl⟩ | ⟨-, _, rfl | rfl⟩⟩ := Sys.peerRegister_eq hs
    exacts [setActor, registered, registered]
  | attach a name =>
    obtain ⟨-, -, ⟨-, rfl⟩ | ⟨-, rfl⟩⟩ := Sys.attach_eq hs
    exacts [registered, setActor]
  | read a fault =>
    obtain ⟨-, -, -, ⟨_, rfl⟩ | ⟨_, rfl⟩ | ⟨fr, _, -, rfl⟩⟩ := Sys.read_eq hs
    exacts [setActor, setActor, setActor.trans handle]
  | call a op =>
    obtain ⟨-, -, -, ⟨_, _, -, rfl⟩ | ⟨_, -, rfl⟩ | ⟨_, _, -, -, rfl⟩⟩ := Sys.call_eq hs
    · rw [Sys.clientTopics_eq]
      exact setActor.trans (patterns fun c => SubMap.has_applyTopics _ _ _)
    all_goals exact setActor.trans setActor
  | unregister a => exact absurd rfl (hact a)
  | deliver a =>
    obtain ⟨-, -, -, -, -, -, ⟨-, rfl⟩ | ⟨-, rfl⟩⟩ := Sys.deliver_eq hs <;> exact of_db rfl
  | ack a => obtain ⟨-, -, -, ⟨-, rfl⟩ | ⟨-, rfl⟩⟩ := Sys.ack_eq hs <;> exact of_db rfl
  | cancel a => obtain ⟨-, -, rfl⟩ := Sys.cancel_eq hs; exact of_db rfl
  | detach a => obtain ⟨-, -, -, rfl⟩ := Sys.detach_eq hs; exact of_db rfl
  | recv a =>
    obtain ⟨-, -, -, ⟨-, rfl⟩ | ⟨-, -, ⟨-, -, rfl⟩ | ⟨-, rfl⟩⟩⟩ := Sys.recv_eq hs <;>
      exact of_db rfl
  | write a fault =>
    obtain ⟨-, -, -, ⟨-, rfl⟩ | ⟨-, -, rfl⟩⟩ := Sys.write_eq hs <;> exact of_db rfl
  | flush a ok => obtain ⟨-, ⟨-, rfl⟩ | ⟨-, rfl⟩⟩ := Sys.flush_eq hs <;> exact of_db rfl
  | abort a => obtain ⟨-, -, -, rfl⟩ := Sys.abort_eq hs; exact of_db rfl
  | dropRx a => obtain ⟨-, -, rfl⟩ := Sys.dropRx_eq hs; exact of_db rfl

end Grows

/-! ### The registry over every run -/

namespace RegistryInv

variable {s s' : Sys}

/-- Registered tasks have distinct names. -/
theorem unique (h : RegistryInv s) {a b : Nat} (ha : (s.actors a).stage.inClients)
    (hb : (s.actors b).stage.inClients) (hn : (s.actors a).name = (s.actors b).name) : a = b :=
  congrArg ElbusClient.tx
    (KeyedList.eq_of_key_eq _ ((h.clients (s.client a)).2 ⟨ha, rfl⟩)
      ((h.clients (s.client b)).2 ⟨hb, rfl⟩) hn)

theorem keys_iff (h : RegistryInv s) (n : Bytes) :
    (n ∈ s.db.clients.keys ↔ ∃ c, s.Placed Stage.inClients c ∧ c.name = n) ∧
    (n ∈ s.db.broadcasts.keys ↔ ∃ c, s.Placed Stage.inBroadcasts c ∧ c.name = n) ∧
    (n ∈ KeyedList.keys s.db.subscriptions ↔
      ∃ c, s.Placed Stage.inSubscriptions c ∧ c.name = n) := by
  refine ⟨?_, ?_, ?_⟩ <;> simp only [KeyedList.mem_keys]
  · exact exists_congr fun c => and_congr_left' (h.clients c)
  · exact exists_congr fun c => and_congr_left' (h.broadcasts c)
  · exact ⟨fun ⟨e, he, hn⟩ => ⟨e.1, (h.subscriptions _).1 ⟨e.2, he⟩, hn⟩,
      fun ⟨c, hc, hn⟩ => let ⟨ps, hp⟩ := (h.subscriptions c).2 hc; ⟨(c, ps), hp, hn⟩⟩

/-- With no unregistration between its sections, the three indexes hold the same names. -/
theorem keys_agree (h : RegistryInv s)
    (hq : ∀ a, (s.actors a).stage ≠ .leftSubscriptions ∧ (s.actors a).stage ≠ .leftBroadcasts)
    (n : Bytes) :
    (n ∈ s.db.clients.keys ↔ n ∈ s.db.broadcasts.keys) ∧
      (n ∈ s.db.clients.keys ↔ n ∈ KeyedList.keys s.db.subscriptions) := by
  have hst : ∀ a, (s.actors a).stage.inClients = (s.actors a).stage.inSubscriptions ∧
      (s.actors a).stage.inBroadcasts = (s.actors a).stage.inSubscriptions := fun a => by
    obtain ⟨h1, h2⟩ := hq a
    revert h1 h2
    cases (s.actors a).stage <;> simp [Stage.inClients, Stage.inBroadcasts, Stage.inSubscriptions]
  obtain ⟨hc, hb, hs⟩ := h.keys_iff n
  rw [hc, hb, hs]
  simp [Sys.Placed, (hst _).1, (hst _).2]

/-- A section of `unregister_client` removes the task's own entry and no other. -/
theorem unregister_removes (h : RegistryInv s) {b : Nat} (hs : s.unregister b = some s')
    (c : ElbusClient) :
    ((c ∈ s.db.clients.items ∧ c ∉ s'.db.clients.items) ∨
     (c ∈ s.db.broadcasts.items ∧ c ∉ s'.db.broadcasts.items) ∨
     (s.db.subscriptions.Has c ∧ ¬ s'.db.subscriptions.Has c)) → c = s.client b := by
  have hown : ∀ (p : Stage → Bool) (mem : ElbusClient → Prop),
      (∀ d, mem d ↔ s.Placed p d) → (∀ d e, mem d → mem e → d.name = e.name → d = e) →
      p (s.actors b).stage → mem c → c.name = (s.actors b).name → c = s.client b :=
    fun p mem hm hu hp hc hn => hu _ _ hc ((hm _).2 ⟨hp, rfl⟩) hn
  obtain ⟨hst, rfl⟩ | ⟨hst, rfl⟩ | ⟨hst, rfl⟩ := Sys.unregister_eq hs <;>
    rintro (⟨hc, hc'⟩ | ⟨hc, hc'⟩ | ⟨hc, hc'⟩)
  all_goals first
    | exact absurd hc hc'
    | skip
  · refine hown _ _ h.subscriptions (fun _ _ => SubMap.Has.eq_of_name)
      (by simp [hst, Stage.inSubscriptions]) hc ?_
    by_contra hn
    exact hc' (SubMap.has_unregisterClient.2 ⟨hc, hn⟩)
  · refine hown _ _ h.broadcasts (fun _ _ hd he => KeyedList.eq_of_key_eq _ hd he)
      (by simp [hst, Stage.inBroadcasts]) hc ?_
    by_contra hn
    exact hc' (KeyedList.mem_erase.2 ⟨hc, hn⟩)
  · refine hown _ _ h.clients (fun _ _ hd he => KeyedList.eq_of_key_eq _ hd he)
      (by simp [hst, Stage.inClients]) hc ?_
    by_contra hn
    exact hc' (KeyedList.mem_erase.2 ⟨hc, hn⟩)

end RegistryInv

/-- What the registry guarantees in a state: a registration (of a peer's name, or of an
in-process `Client`) succeeds exactly when no handle of its name is in `clients`; no two tasks
hold a registration of one name; when no unregistration is between its sections the three
indexes hold the same names; and an entry leaves an index only through a section of the
unregistration of the task whose registration put it there. -/
structure RegistrySound (s : Sys) : Prop where
  register_vacant : ∀ a fs s', s.step (.register a fs) = some s' →
    ((s'.actors a).stage.inClients ↔ (s.actors a).name ∉ s.db.clients.keys)
  attach_vacant : ∀ a name s', s.step (.attach a name) = some s' →
    ((s'.actors a).stage.inClients ↔ name ∉ s.db.clients.keys)
  unique : ∀ a b, (s.actors a).stage.inClients → (s.actors b).stage.inClients →
    (s.actors a).name = (s.actors b).name → a = b
  keys_agree : (∀ a, (s.actors a).stage ≠ .leftSubscriptions ∧
      (s.actors a).stage ≠ .leftBroadcasts) →
    ∀ n, (n ∈ s.db.clients.keys ↔ n ∈ s.db.broadcasts.keys) ∧
      (n ∈ s.db.clients.keys ↔ n ∈ KeyedList.keys s.db.subscriptions)
  leaves_by_owner : ∀ act s', s.step act = some s' → ∀ c,
    ((c ∈ s.db.clients.items ∧ c ∉ s'.db.clients.items) ∨
     (c ∈ s.db.broadcasts.items ∧ c ∉ s'.db.broadcasts.items) ∨
     (s.db.subscriptions.Has c ∧ ¬ s'.db.subscriptions.Has c)) →
    act = .unregister c.tx ∧ c = s.client c.tx

/-- **The registry over every run.** Every reachable state, under any interleaving of
connections and in-process `Client`s, has the guarantees of `RegistrySound`. -/
theorem registry_sound {s : Sys} (hs : Reachable s) : RegistrySound s := by
  have h := RegistryInv.of_reachable hs
  refine ⟨fun a fs s' hs' => ?_, fun a name s' hs' => ?_, fun a b => h.unique, h.keys_agree,
    fun act s' hs' c hc => ?_⟩
  · obtain ⟨-, -, ⟨hk, -, rfl⟩ | ⟨hk, -, rfl | rfl⟩⟩ := Sys.peerRegister_eq hs' <;>
      simp [hk, Stage.inClients]
  · obtain ⟨-, -, ⟨hk, rfl⟩ | ⟨hk, rfl⟩⟩ := Sys.attach_eq hs' <;> simp [hk, Stage.inClients]
  · by_cases hu : ∃ b, act = .unregister b
    · obtain ⟨b, rfl⟩ := hu
      have hcb := h.unregister_removes hs' c hc
      subst hcb
      exact ⟨rfl, rfl⟩
    · have hg := Grows.step hs' fun b hb => hu ⟨b, hb⟩
      rcases hc with ⟨hc, hc'⟩ | ⟨hc, hc'⟩ | ⟨hc, hc'⟩
      exacts [absurd (hg.clients c hc) hc', absurd (hg.broadcasts c hc) hc',
        absurd (hg.subscriptions c hc) hc']

/-- An in-process `Client` registers `a` on an empty broker; the state reached has the
guarantees. -/
theorem registry_sound_attached :
    ([0x61] : Bytes) ∉ BrokerDb.default.clients.keys ∧
    ∀ W : Wire, ∃ s, (Sys.init W 1 fun _ => none).step (.attach 0 [0x61]) = some s ∧
      (s.actors 0).stage = .live ∧ RegistrySound s :=
  ⟨by simp [BrokerDb.default, KeyedList.keys],
    fun W => ⟨_, rfl, rfl,
      registry_sound (.step (.attach 0 [0x61]) (.init W 1 fun _ => none) rfl)⟩⟩

end Elbus
