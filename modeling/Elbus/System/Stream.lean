import Elbus.System.Effects

/-!
# What a connection's socket receives

The writer task of a connection takes the frames of its queue in order and writes the pieces
of each, then flushes. The first failed or timed-out write or flush, or a frame whose turn
panics, ends the task, and with it the queue's receiver. `WriterLocal` says what the socket
has received against the frames the task took: while it waits, exactly their bytes, in
queue order; while it writes a frame, those bytes but the pieces it has still to write; once
it has stopped, a prefix of them. An ended writer task never runs again.

* `StreamInv.of_reachable`: the socket of every task, in every reachable state.
* `StreamInv.frozen_run`: once a queue's receiver is gone, no later step writes to the
  socket.
-/

namespace Elbus

/-- The bytes a writer task owes its socket for the frames it took, in queue order: each
frame's bytes (a `Prepared` frame verbatim, a routed one as §4.3 lays it out), nothing for a
frame whose turn panics. -/
def streamBytes (W : Wire) (its : List QItem) : Bytes :=
  (its.map fun it => (frameBytes W it.frame).getD []).flatten

theorem streamBytes_append (W : Wire) (l₁ l₂ : List QItem) :
    streamBytes W (l₁ ++ l₂) = streamBytes W l₁ ++ streamBytes W l₂ := by
  simp [streamBytes]

theorem streamBytes_grows (W : Wire) (l₁ l₂ : List QItem) :
    streamBytes W l₁ <+: streamBytes W (l₁ ++ l₂) := by
  rw [streamBytes_append]
  exact List.prefix_append _ _

/-- Skipping the empty pieces writes the same bytes. -/
theorem flatten_filter_nonempty (cs : List Bytes) :
    (cs.filter (!·.isEmpty)).flatten = cs.flatten := by
  induction cs with
  | nil => rfl
  | cons c cs ih => cases c <;> simp [List.filter_cons, ih]

/-- What a socket has received, `written`, against the frames `its` its writer task took:
all of their bytes while the task waits, all but the pieces still to write while it writes a
frame, a prefix once it has stopped. -/
def Streams (W : Wire) (its : List QItem) : WriterState → Bytes → Prop
  | .stopped, written => written <+: streamBytes W its
  | .waiting, written => written = streamBytes W its
  | .writing cs, written => written ++ cs.flatten = streamBytes W its

theorem Streams.within {W : Wire} {its : List QItem} {w : WriterState} {written : Bytes}
    (h : Streams W its w written) : written <+: streamBytes W its := by
  cases w with
  | stopped => exact h
  | waiting => exact h ▸ List.prefix_refl _
  | writing cs => exact h ▸ List.prefix_append _ _

/-- Stopping keeps what was written. -/
theorem Streams.stop {W : Wire} {its : List QItem} {w : WriterState} {written : Bytes}
    (h : Streams W its w written) (l : List QItem) : Streams W (its ++ l) .stopped written :=
  h.within.trans (streamBytes_grows W its l)

/-- The writer task of one task, against its queue `q`. -/
structure WriterLocal (W : Wire) (q : List QItem) (kind : ActorKind) (stage : Stage)
    (writer : WriterState) (written : Bytes) (taken : Nat) (closed : Bool) : Prop where
  taken_le : taken ≤ q.length
  streams : Streams W (q.take taken) writer written
  /-- a dropped receiver belongs to an ended writer task -/
  closed_stopped : closed = true → writer = .stopped
  /-- an in-process `Client` has no writer task -/
  internal : kind = .internal → writer = .stopped
  /-- a connection's writer task is spawned at its registration -/
  fresh : kind = .peer → stage = .start ∨ stage = .named →
    writer = .stopped ∧ taken = 0 ∧ written = [] ∧ closed = false

namespace WriterLocal

variable {W : Wire} {q : List QItem} {k : ActorKind} {st : Stage} {w : WriterState}
  {written : Bytes} {t : Nat} {c : Bool}

/-- Another frame on the queue leaves the frames taken alone. -/
theorem push (h : WriterLocal W q k st w written t c) (it : QItem) :
    WriterLocal W (q ++ [it]) k st w written t c := by
  refine ⟨by simp only [List.length_append]; exact Nat.le_succ_of_le h.taken_le, ?_,
    h.closed_stopped, h.internal, h.fresh⟩
  rw [List.take_append_of_le_length h.taken_le]
  exact h.streams

/-- A change of stage that neither enters nor leaves the stages before registration. -/
theorem restage (h : WriterLocal W q k st w written t c) {st' : Stage}
    (hst : st' = .start ∨ st' = .named → st = .start ∨ st = .named) :
    WriterLocal W q k st' w written t c :=
  ⟨h.taken_le, h.streams, h.closed_stopped, h.internal, fun hk hs => h.fresh hk (hst hs)⟩

/-- A task whose writer task has stopped may drop its receiver. -/
theorem close (h : WriterLocal W q k st .stopped written t c)
    (hst : k = .peer → st = .start ∨ st = .named → False) :
    WriterLocal W q k st .stopped written t true :=
  ⟨h.taken_le, h.streams, fun _ => rfl, h.internal, fun hk hs => (hst hk hs).elim⟩

end WriterLocal

/-- The writer task of every task. -/
def StreamInv (s : Sys) : Prop :=
  ∀ a, WriterLocal s.wire (s.queue a) (s.actors a).kind (s.actors a).stage (s.actors a).writer
    (s.actors a).written (s.actors a).taken (s.actors a).closed

namespace StreamInv

variable {s s' : Sys} {a : Nat}

theorem init (W : Wire) (q : Nat) (peers : Nat → Option Bytes) :
    StreamInv (Sys.init W q peers) := by
  intro a
  simp only [Sys.init]
  split <;> exact ⟨Nat.zero_le _, List.prefix_refl _, nofun, fun _ => rfl,
    fun _ _ => ⟨rfl, rfl, rfl, rfl⟩⟩

/-- A step of task `a` that queues nothing. -/
theorem update (h : StreamInv s) (hw : s'.wire = s.wire) (hlog : s'.log = s.log)
    (ho : ∀ b, b ≠ a → s'.actors b = s.actors b)
    (hx : WriterLocal s.wire (s.queue a) (s'.actors a).kind (s'.actors a).stage
      (s'.actors a).writer (s'.actors a).written (s'.actors a).taken (s'.actors a).closed) :
    StreamInv s' := by
  intro b
  have hq : s'.queue b = s.queue b := by rw [Sys.queue, hlog]; rfl
  rw [hw, hq]
  by_cases hb : b = a
  · subst hb
    exact hx
  · rw [ho b hb]
    exact h b

theorem setActor (h : StreamInv s) {x : Actor}
    (hx : WriterLocal s.wire (s.queue a) x.kind x.stage x.writer x.written x.taken x.closed) :
    StreamInv (s.setActor a x) :=
  h.update (a := a) rfl rfl (fun b hb => by simp [hb]) (by rw [Sys.setActor_actors_self]; exact hx)

theorem db {db : BrokerDb} (h : StreamInv s) : StreamInv { s with db } := h

theorem enqueue (h : StreamInv s) (d : Nat) (it : QItem) : StreamInv (s.enqueue d it) := by
  intro b
  rw [Sys.queue_enqueue]
  split
  · exact (h b).push it
  · exact h b

/-- The frame a task takes from its queue. -/
theorem take_succ {it : QItem} (hit : (s.queue a).get? (s.actors a).taken = some it) :
    (s.queue a).take ((s.actors a).taken + 1) = (s.queue a).take (s.actors a).taken ++ [it] := by
  rw [List.take_succ, ← List.get?_eq_getElem?, hit]
  rfl

theorem taken_lt {it : QItem} (hit : (s.queue a).get? (s.actors a).taken = some it) :
    (s.actors a).taken < (s.queue a).length :=
  (List.get?_eq_some.1 hit).1

theorem recv (h : StreamInv s) (hs : s.recv a = some s') : StreamInv s' := by
  obtain ⟨hc, it, hit, ⟨hk, rfl⟩ | ⟨hk, hw, ⟨cs, hcs, rfl⟩ | ⟨-, rfl⟩⟩⟩ := Sys.recv_eq hs
  · have hx := h a
    have hw := hx.internal hk
    refine h.setActor ⟨taken_lt hit, ?_, hx.closed_stopped, hx.internal,
      fun hp => by simp [hk] at hp⟩
    simp only [take_succ hit, hw]
    exact (hw ▸ hx.streams).stop [it]
  · have hx := h a
    have hst : Streams s.wire ((s.queue a).take (s.actors a).taken) .waiting (s.actors a).written :=
      hw ▸ hx.streams
    refine h.setActor ⟨taken_lt hit, ?_, fun hc' => by simp [hc] at hc',
      fun hi => by simp [hk] at hi, fun _ hs => absurd (hw.symm.trans (hx.fresh hk hs).1) nofun⟩
    simp only [take_succ hit]
    show _ ++ _ = _
    rw [streamBytes_append, ← hst, flatten_filter_nonempty]
    simp [streamBytes, frameBytes, hcs]
  · have hx := h a
    refine h.setActor ⟨taken_lt hit, ?_, fun _ => rfl, fun _ => rfl,
      fun _ hs => absurd (hw.symm.trans (hx.fresh hk hs).1) nofun⟩
    simp only [take_succ hit]
    exact hx.streams.stop [it]

theorem handle {fr : OpFrame} (h : StreamInv s) (hl : (s.actors a).stage = .live) :
    StreamInv (s.handle a fr) := by
  obtain ⟨hlog, st, pc, sub, sent, hst, -, hx⟩ := Sys.handle_actor (s := s) (a := a) fr
  obtain ⟨hw, -, ho⟩ := Sys.handle_frame (s := s) (a := a) fr
  refine h.update hw hlog ho ?_
  rw [hx]
  exact (h a).restage (by rcases hst with rfl | rfl <;> simp [hl])

theorem step {act : Action} (h : StreamInv s) (hs : s.step act = some s') : StreamInv s' := by
  cases act with
  | greet a fs =>
    obtain ⟨-, hst, ⟨_, _, rfl⟩ | ⟨_, _, _, rfl⟩⟩ := Sys.peerGreet_eq hs <;>
      exact h.setActor ((h a).restage fun _ => .inl hst)
  | register a fs =>
    obtain ⟨hk, hst, ⟨-, _, rfl⟩ | ⟨-, _, rfl | rfl⟩⟩ := Sys.peerRegister_eq hs
    · exact h.setActor ((h a).restage fun _ => .inr hst)
    · obtain ⟨hw, -, -, -⟩ := (h a).fresh hk (.inr hst)
      have hx : WriterLocal _ _ _ .abandoned _ _ _ _ := (h a).restage fun _ => .inr hst
      refine h.db.setActor ?_
      show WriterLocal _ _ _ _ (s.actors a).writer _ _ _
      rw [hw] at hx ⊢
      exact hx.close fun _ hs => by simp at hs
    · obtain ⟨-, ht, hw, hc⟩ := (h a).fresh hk (.inr hst)
      refine h.db.setActor ⟨(h a).taken_le, ?_, fun hc' => absurd (hc ▸ hc') nofun, ?_, nofun⟩
      · show _ = _
        rw [ht, hw]
        rfl
      · intro hi
        rw [hk] at hi
        cases hi
  | attach a name =>
    obtain ⟨hk, -, ⟨-, rfl⟩ | ⟨-, rfl⟩⟩ := Sys.attach_eq hs <;>
      exact h.setActor ((h a).restage fun _ => by simp_all)
  | read a fault =>
    obtain ⟨-, hl, -, ⟨_, rfl⟩ | ⟨_, rfl⟩ | ⟨fr, _, -, rfl⟩⟩ := Sys.read_eq hs
    · exact h.setActor ((h a).restage (by simp [Actor.leave]))
    · exact h.setActor (h a)
    · refine StreamInv.handle ?_ (by rw [Sys.setActor_actors_self]; exact hl)
      exact h.setActor (h a)
  | call a op =>
    obtain ⟨-, -, -, ⟨_, _, -, rfl⟩ | ⟨_, -, rfl⟩ | ⟨_, _, -, -, rfl⟩⟩ := Sys.call_eq hs
    · rw [Sys.clientTopics_eq]
      refine StreamInv.setActor (StreamInv.db ?_) ?_
      · exact h.setActor (h a)
      · rw [Sys.setActor_actors_self]
        exact h a
    all_goals
      refine StreamInv.setActor ?_ ?_
      · exact h.setActor (h a)
      · rw [Sys.setActor_actors_self]
        exact h a
  | deliver a =>
    obtain ⟨-, r, -, -, -, -, ⟨-, rfl⟩ | ⟨-, rfl⟩⟩ := Sys.deliver_eq hs
    · exact (h.enqueue _ _).setActor ((h.enqueue r.tx _) a)
    · exact h.setActor (h a)
  | ack a =>
    obtain ⟨-, -, -, ⟨-, rfl⟩ | ⟨-, rfl⟩⟩ := Sys.ack_eq hs
    · exact (h.enqueue _ _).setActor ((h.enqueue a _) a)
    · exact h.setActor ((h a).restage (by simp [Actor.leave]))
  | cancel a =>
    obtain ⟨-, -, rfl⟩ := Sys.cancel_eq hs
    exact h.setActor (h a)
  | detach a =>
    obtain ⟨-, -, -, rfl⟩ := Sys.detach_eq hs
    exact h.setActor ((h a).restage (by simp [Actor.leave]))
  | unregister a =>
    obtain ⟨-, rfl⟩ | ⟨-, rfl⟩ | ⟨-, rfl⟩ := Sys.unregister_eq hs <;>
      exact h.db.setActor ((h a).restage (by simp [Actor.leave]))
  | recv a => exact h.recv hs
  | write a fault =>
    obtain ⟨c, cs, hw, ⟨-, rfl⟩ | ⟨k, -, rfl⟩⟩ := Sys.write_eq hs
    · have hx := h a
      rw [hw] at hx
      refine h.setActor ⟨hx.taken_le, ?_, fun hc => absurd (hx.closed_stopped hc) nofun,
        fun hi => absurd (hx.internal hi) nofun, fun hk hs => absurd (hx.fresh hk hs).1 nofun⟩
      show _ ++ _ = _
      rw [← hx.streams, List.flatten_cons, List.append_assoc]
    · have hx := h a
      rw [hw] at hx
      refine h.setActor ⟨hx.taken_le, ?_, fun _ => rfl, fun _ => rfl,
        fun hk hs => absurd (hx.fresh hk hs).1 nofun⟩
      show _ <+: _
      rw [← hx.streams, List.flatten_cons, ← List.append_assoc]
      exact ((List.prefix_append_right_inj _).2 (List.take_prefix k c)).trans
        (List.prefix_append _ _)
  | flush a ok =>
    obtain ⟨hw, ⟨-, rfl⟩ | ⟨-, rfl⟩⟩ := Sys.flush_eq hs <;> have hx := h a <;> rw [hw] at hx
    · refine h.setActor ⟨hx.taken_le, ?_, fun hc => absurd (hx.closed_stopped hc) nofun,
        fun hi => absurd (hx.internal hi) nofun, fun hk hs => absurd (hx.fresh hk hs).1 nofun⟩
      simpa [Streams] using hx.streams
    · refine h.setActor ⟨hx.taken_le, ?_, fun _ => rfl, fun _ => rfl,
        fun hk hs => absurd (hx.fresh hk hs).1 nofun⟩
      simpa using hx.streams.within
  | abort a =>
    obtain ⟨-, hd, hw, rfl⟩ := Sys.abort_eq hs
    have hx := h a
    refine h.setActor ⟨hx.taken_le, hx.streams.within, fun _ => rfl, fun _ => rfl,
      fun _ hs => ?_⟩
    have hst : (s.actors a).stage = .start ∨ (s.actors a).stage = .named := hs
    rcases hst with hst | hst <;> simp [hst, Stage.readerDone] at hd
  | dropRx a =>
    obtain ⟨hk, -, rfl⟩ := Sys.dropRx_eq hs
    have hx := h a
    refine h.setActor ?_
    show WriterLocal _ _ _ _ (s.actors a).writer _ _ _
    have hw := hx.internal hk
    rw [hw] at hx ⊢
    exact hx.close fun hp => by simp [hk] at hp

theorem of_reachable (hs : Reachable s) : StreamInv s := by
  induction hs with
  | init W q peers => exact init W q peers
  | step act _ hs ih => exact ih.step hs

end StreamInv

end Elbus
