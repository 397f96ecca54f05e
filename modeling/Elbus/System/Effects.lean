import Elbus.System.Step

/-!
# What each step does

One lemma per step function, saying everything it can do: its guard, and each outcome as an
explicit state. Invariants are proved from these and never unfold a step.
-/

namespace Elbus

namespace Sys

variable {s s' : Sys} {a : Nat}

theorem peerGreet_eq {fs : List Fault} (hs : s.peerGreet a fs = some s') :
    (s.actors a).kind = .peer ∧ (s.actors a).stage = .start ∧
      ((∃ i h, s' = s.setActor a { s.actors a with stage := .rejected, input := i, hello := h }) ∨
       ∃ n i h, s' = s.setActor a
         { s.actors a with stage := .named, name := n, input := i, hello := h }) := by
  unfold peerGreet at hs
  dsimp only at hs
  split at hs
  · rename_i hg
    refine ⟨hg.1, hg.2, ?_⟩
    split at hs <;> cases hs
    exacts [.inl ⟨_, _, rfl⟩, .inr ⟨_, _, _, rfl⟩]
  · cases hs

/-- A handshake names a task only with a name it accepts. -/
theorem peerGreet_name {fs : List Fault} (hs : s.peerGreet a fs = some s')
    (hn : (s'.actors a).stage = .named) :
    utf8Valid (s'.actors a).name = true ∧ (s'.actors a).name ≠ [] ∧
      (s'.actors a).name.head? ≠ some 0x2E := by
  unfold peerGreet at hs
  dsimp only at hs
  split at hs
  · split at hs <;> cases hs
    · simp at hn
    · simpa using greet_name s.wire _ _ _ ‹_›
  · cases hs

theorem peerRegister_eq {fs : List Fault} (hs : s.peerRegister a fs = some s') :
    (s.actors a).kind = .peer ∧ (s.actors a).stage = .named ∧
      ((s.actors a).name ∈ s.db.clients.keys ∧
        (∃ h, s' = s.setActor a { s.actors a with stage := .rejected, hello := h }) ∨
       (s.actors a).name ∉ s.db.clients.keys ∧ ∃ h,
        s' = { s with db := s.db.registered (s.client a) }.setActor a
          { s.actors a with stage := .abandoned, hello := h, closed := true, subLog := [] } ∨
        s' = { s with db := s.db.registered (s.client a) }.setActor a
          { s.actors a with stage := .live, hello := h, writer := .waiting, subLog := [] }) := by
  unfold peerRegister at hs
  dsimp only at hs
  split at hs
  · rename_i hg
    refine ⟨hg.1, hg.2, ?_⟩
    split at hs
    · rename_i hreg
      cases hs
      obtain ⟨⟨e', he⟩, -⟩ := registerPeer_error hreg
      exact .inl ⟨(BrokerDb.registerClient_error_iff.1 he).1, _, rfl⟩
    · rename_i c hreg
      obtain ⟨hfree, hdb⟩ := BrokerDb.registerClient_ok_iff.1 (registerPeer_ok hreg).2
      refine .inr ⟨hfree, ?_⟩
      split at hs <;> cases hs <;> rename_i c' hw <;>
        rw [show c'.db = c.db by simpa [hw] using writeAndFlush_keepsDb [s.wire.responseOk] c, hdb]
      exacts [⟨_, .inl rfl⟩, ⟨_, .inr rfl⟩]
  · cases hs

theorem attach_eq {name : Bytes} (hs : s.attach a name = some s') :
    (s.actors a).kind = .internal ∧ (s.actors a).stage = .start ∧
      ((name ∉ s.db.clients.keys ∧ s' = { s with db := s.db.registered ⟨name, a⟩ }.setActor a
          { s.actors a with stage := .live, name, subLog := [] }) ∨
       (name ∈ s.db.clients.keys ∧ s' = s.setActor a { s.actors a with stage := .rejected })) := by
  unfold attach at hs
  dsimp only at hs
  split at hs
  · rename_i hg
    refine ⟨hg.1, hg.2, ?_⟩
    split at hs <;> cases hs
    · rename_i hok
      obtain ⟨hfree, rfl⟩ := BrokerDb.registerClient_ok_iff.1 hok
      exact .inl ⟨hfree, rfl⟩
    · rename_i herr
      exact .inr ⟨(BrokerDb.registerClient_error_iff.1 herr).1, rfl⟩
  · cases hs

theorem read_eq {fault : Bool} (hs : s.read a fault = some s') :
    (s.actors a).kind = .peer ∧ (s.actors a).stage = .live ∧ (s.actors a).pc = .idle ∧
      ((∃ i, s' = s.setActor a { s.actors a with input := i }.leave) ∨
       (∃ i, s' = s.setActor a { s.actors a with input := i }) ∨
       ∃ fr i, readOpFrame s.wire (s.actors a).input = .ok (some fr, i) ∧
        s' = (s.setActor a
          { s.actors a with input := i, opLog := .wire fr.opId fr.op fr.qos :: (s.actors a).opLog }
          ).handle a fr) := by
  unfold read at hs
  dsimp only at hs
  split at hs
  · rename_i hg
    refine ⟨hg.1, hg.2.1, hg.2.2, ?_⟩
    split at hs
    · cases hs
      exact .inl ⟨_, rfl⟩
    · split at hs <;> cases hs
      exacts [.inl ⟨_, rfl⟩, .inr (.inl ⟨_, rfl⟩), .inr (.inr ⟨_, _, ‹_›, rfl⟩)]
  · cases hs

/-- A turn of the reader on a whole op frame. -/
theorem read_of_frame {fr : OpFrame} {i : Bytes} (hk : (s.actors a).kind = .peer)
    (hl : (s.actors a).stage = .live) (hpc : (s.actors a).pc = .idle)
    (hf : readOpFrame s.wire (s.actors a).input = .ok (some fr, i)) :
    s.read a false = some ((s.setActor a
      { s.actors a with input := i, opLog := .wire fr.opId fr.op fr.qos :: (s.actors a).opLog }
      ).handle a fr) := by
  unfold read
  simp [hk, hl, hpc, hf]

theorem read_frame_eq {fr : OpFrame} {i : Bytes} (hs : s.read a false = some s')
    (hf : readOpFrame s.wire (s.actors a).input = .ok (some fr, i)) :
    s' = (s.setActor a
      { s.actors a with input := i, opLog := .wire fr.opId fr.op fr.qos :: (s.actors a).opLog }
      ).handle a fr := by
  obtain ⟨hk, hl, hpc, -⟩ := read_eq hs
  exact (Option.some.inj ((read_of_frame hk hl hpc hf).symm.trans hs)).symm

theorem handleTopics_eq (mk : Bytes → SubOp) (ack : Option Bytes) (body : Bytes) :
    let r := applyTopics mk (s.client a) (fun t _ => utf8Valid t)
      (s.db.subscriptions, (s.actors a).subLog) (body.splitOn 0)
    s.handleTopics a mk ack body =
      { s with db := { s.db with subscriptions := r.1 } }.setActor a
        (if r.2.2 then { s.actors a with subLog := r.2.1, pc := Pc.finish ack s.wire.responseOk }
         else { s.actors a with subLog := r.2.1 }.leave) := rfl

/-- The routed arms are `wireOffer`, the wire path of `offers_agree`, behind the target's `?`:
the loop ends on a target that does not parse, `Nop` does nothing, a `send!` whose lookup
finds no client records it and acks `not_registered`, and an offer starts its dispatch. -/
theorem handleRouted_eq (op : FrameOp) (ack : Option Bytes) (body : Bytes) :
    ((∃ e, parseTarget body = .error e) ∧
      s.handleRouted a op ack body = s.setActor a (s.actors a).leave) ∨
    (op.route = none ∧ s.handleRouted a op ack body = s) ∨
    (∃ target pos, parseTarget body = .ok (target, pos) ∧ op.route = some .message ∧
      s.db.clients.lookup target = none ∧
      wireOffer s.db (s.client a) .message body = .error ⟨.notRegistered⟩ ∧
      s.handleRouted a op ack body = s.setActor a
        { s.actors a with
          pc := Pc.finish ack (s.wire.kindCode .notRegistered),
          sent := (s.actors a).noted true .notRegistered }) ∨
    ∃ r o, op.route = some r ∧ wireOffer s.db (s.client a) r body = .ok o ∧
      s.handleRouted a op ack body = s.setActor a
        { s.actors a with
          pc := Pc.start o.frame (r = .message) ack s.wire.responseOk o.recipients } := by
  unfold handleRouted
  dsimp only
  split
  · exact .inl ⟨⟨_, ‹_›⟩, rfl⟩
  · rename_i target pos hp
    split
    · exact .inr (.inl ⟨‹_›, rfl⟩)
    · rename_i r hr
      split
      · rename_i e he
        have hw := (wireOffer_of_parseTarget hp).trans he
        obtain ⟨rfl, rfl, hl⟩ := wireOffer_error hp hw
        exact .inr (.inr (.inl ⟨_, _, hp, hr, hl, hw, rfl⟩))
      · exact .inr (.inr (.inr ⟨_, _, hr, (wireOffer_of_parseTarget hp).trans ‹_›, rfl⟩))

/-- `handle_reader`'s `match op`: the two topic arms, and the routed arm for every other op,
of which only `Nop` has no route. -/
theorem handle_eq (fr : OpFrame) :
    (fr.op = .subscribeTopic ∧ s.handle a fr = s.handleTopics a .subscribe fr.ackId fr.body) ∨
    (fr.op = .unsubscribeTopic ∧
      s.handle a fr = s.handleTopics a .unsubscribe fr.ackId fr.body) ∨
    ((fr.op.route = none → fr.op = .nop) ∧
      s.handle a fr = s.handleRouted a fr.op fr.ackId fr.body) := by
  unfold handle
  split
  · exact .inl ⟨‹_›, rfl⟩
  · exact .inr (.inl ⟨‹_›, rfl⟩)
  · rename_i h₁ h₂
    exact .inr (.inr ⟨fun hr => by cases hop : fr.op <;> simp_all [FrameOp.route], rfl⟩)

/-- The two topic arms. -/
theorem handle_topics {fr : OpFrame} {mk : Bytes → SubOp}
    (h : fr.op = .subscribeTopic ∧ mk = SubOp.subscribe ∨
      fr.op = .unsubscribeTopic ∧ mk = SubOp.unsubscribe) :
    s.handle a fr = s.handleTopics a mk fr.ackId fr.body := by
  rcases handle_eq (s := s) (a := a) fr with ⟨hop, he⟩ | ⟨hop, he⟩ | ⟨hnop, -⟩ <;>
    rcases h with ⟨h, rfl⟩ | ⟨h, rfl⟩ <;> simp_all [FrameOp.route]

theorem clientTopics_eq (mk : Bytes → SubOp) (ts : List Bytes) :
    let r := applyTopics mk (s.client a) (fun t m => ((mk t).run m (s.client a)).1)
      (s.db.subscriptions, (s.actors a).subLog) ts
    s.clientTopics a mk ts =
      { s with db := { s.db with subscriptions := r.1 } }.setActor a
        { s.actors a with subLog := r.2.1 } := rfl

/-- The ops of the in-process `Client` as pattern changes and routed sends. -/
def Call.topics : Call → Option ((Bytes → SubOp) × List Bytes)
  | .subscribe t => some (.subscribe, [t])
  | .subscribeBulk ts => some (.subscribe, ts)
  | .unsubscribe t => some (.unsubscribe, [t])
  | .unsubscribeBulk ts => some (.unsubscribe, ts)
  | .route _ => none

theorem call_eq {op : Call} (hs : s.call a op = some s') :
    (s.actors a).kind = .internal ∧ (s.actors a).stage = .live ∧ (s.actors a).pc = .idle ∧
      let s₁ := s.setActor a { s.actors a with opLog := .call :: (s.actors a).opLog }
      ((∃ mk ts, op.topics = some (mk, ts) ∧ s' = s₁.clientTopics a mk ts) ∨
       (∃ c, op = .route c ∧
        s' = s₁.setActor a { s₁.actors a with sent := (s₁.actors a).noted true .notRegistered }) ∨
       ∃ c o, op = .route c ∧ clientOffer s.db (s.client a) c = .ok o ∧
        s' = s₁.setActor a
          { s₁.actors a with
            pc := Pc.start o.frame c.strict none s.wire.responseOk o.recipients }) := by
  unfold call at hs
  dsimp only at hs
  split at hs
  · rename_i hg
    refine ⟨hg.1, hg.2.1, hg.2.2, ?_⟩
    cases hs
    cases op with
    | subscribe t => exact .inl ⟨_, _, rfl, rfl⟩
    | subscribeBulk ts => exact .inl ⟨_, _, rfl, rfl⟩
    | unsubscribe t => exact .inl ⟨_, _, rfl, rfl⟩
    | unsubscribeBulk ts => exact .inl ⟨_, _, rfl, rfl⟩
    | route c =>
      dsimp only
      split
      · exact .inr (.inl ⟨_, rfl, rfl⟩)
      · rename_i o ho
        exact .inr (.inr ⟨_, _, rfl, by simpa [client_setActor, client] using ho, rfl⟩)
  · cases hs

theorem deliver_eq (hs : s.deliver a = some s') :
    ∃ f r rest strict ack, (s.actors a).pc = .sending f (r :: rest) strict ack ∧
      (((s.actors r.tx).closed = false ∧
        s' = (s.enqueue r.tx ⟨f, ⟨a, (s.actors a).opLog.length, false⟩⟩).setActor a
          { s.actors a with
            pc := Pc.start f strict ack s.wire.responseOk rest,
            sent := (s.actors a).noted strict (.accepted r.tx) }) ∨
       ((s.actors r.tx).closed = true ∧
        s' = s.setActor a
          { s.actors a with
            pc := if strict then Pc.finish ack (s.wire.kindCode s.wire.sendErrorKind)
              else Pc.start f strict ack s.wire.responseOk rest,
            sent := (s.actors a).noted strict (.refused r.tx) })) := by
  unfold deliver at hs
  dsimp only at hs
  split at hs
  · rename_i f r rest strict ack hpc
    refine ⟨f, r, rest, strict, ack, hpc, ?_⟩
    split at hs
    · cases hs
    · obtain ⟨hc, hr⟩ | ⟨hc, hr⟩ := trySend_eq ‹_› <;> cases hr
      cases hs
      exact .inl ⟨hc, rfl⟩
    · obtain ⟨hc, hr⟩ | ⟨hc, hr⟩ := trySend_eq ‹_› <;> cases hr
      cases hs
      exact .inr ⟨hc, rfl⟩
  · cases hs

theorem ack_eq (hs : s.ack a = some s') :
    ∃ opId code, (s.actors a).pc = .acking opId code ∧
      (((s.actors a).closed = false ∧
        s' = (s.enqueue a
            ⟨ackFrame s.wire opId code, ⟨a, (s.actors a).opLog.length, true⟩⟩).setActor
          a { s.actors a with pc := .idle }) ∨
       ((s.actors a).closed = true ∧ s' = s.setActor a (s.actors a).leave)) := by
  unfold ack at hs
  dsimp only at hs
  split at hs
  · rename_i opId code hpc
    refine ⟨opId, code, hpc, ?_⟩
    split at hs
    · cases hs
    · obtain ⟨hc, hr⟩ | ⟨hc, hr⟩ := trySend_eq ‹_› <;> cases hr
      cases hs
      exact .inl ⟨hc, rfl⟩
    · obtain ⟨hc, hr⟩ | ⟨hc, hr⟩ := trySend_eq ‹_› <;> cases hr
      cases hs
      exact .inr ⟨hc, rfl⟩
  · cases hs

theorem cancel_eq (hs : s.cancel a = some s') :
    (s.actors a).kind = .internal ∧ (s.actors a).pc ≠ .idle ∧
      s' = s.setActor a { s.actors a with pc := .idle } := by
  unfold cancel at hs
  dsimp only at hs
  split at hs
  · rename_i hg
    cases hs
    exact ⟨hg.1, hg.2, rfl⟩
  · cases hs

theorem detach_eq (hs : s.detach a = some s') :
    (s.actors a).kind = .internal ∧ (s.actors a).stage = .live ∧ (s.actors a).pc = .idle ∧
      s' = s.setActor a (s.actors a).leave := by
  unfold detach at hs
  dsimp only at hs
  split at hs
  · rename_i hg
    cases hs
    exact ⟨hg.1, hg.2.1, hg.2.2, rfl⟩
  · cases hs

theorem unregister_eq (hs : s.unregister a = some s') :
    ((s.actors a).stage = .leaving ∧
      s' = { s with db := s.db.unregisterSubscriptions (s.client a) }.setActor a
        { s.actors a with stage := .leftSubscriptions }) ∨
    ((s.actors a).stage = .leftSubscriptions ∧
      s' = { s with db := s.db.unregisterBroadcasts (s.client a) }.setActor a
        { s.actors a with stage := .leftBroadcasts }) ∨
    ((s.actors a).stage = .leftBroadcasts ∧
      s' = { s with db := s.db.unregisterClients (s.client a) }.setActor a
        { s.actors a with stage := .gone }) := by
  unfold unregister at hs
  dsimp only at hs
  split at hs <;> cases hs
  exacts [.inl ⟨‹_›, rfl⟩, .inr (.inl ⟨‹_›, rfl⟩), .inr (.inr ⟨‹_›, rfl⟩)]

theorem recv_eq (hs : s.recv a = some s') :
    (s.actors a).closed = false ∧ ∃ it, (s.queue a).get? (s.actors a).taken = some it ∧
      (((s.actors a).kind = .internal ∧
          s' = s.setActor a { s.actors a with taken := (s.actors a).taken + 1 }) ∨
       ((s.actors a).kind = .peer ∧ (s.actors a).writer = .waiting ∧
        ((∃ cs, writeChunks s.wire it.frame = some cs ∧ s' = s.setActor a
            { s.actors a with
              taken := (s.actors a).taken + 1, writer := .writing (cs.filter (!·.isEmpty)) }) ∨
         (writeChunks s.wire it.frame = none ∧ s' = s.setActor a
            { s.actors a with
              taken := (s.actors a).taken + 1, writer := .stopped, closed := true })))) := by
  unfold recv at hs
  dsimp only at hs
  split at hs
  · cases hs
  · refine ⟨Bool.eq_false_iff.2 ‹_›, ?_⟩
    split at hs
    · cases hs
    · rename_i it hit
      refine ⟨it, hit, ?_⟩
      split at hs
      · cases hs
        exact .inl ⟨‹_›, rfl⟩
      · split at hs
        · cases hs
          refine .inr ⟨‹_›, ‹_›, ?_⟩
          split
          · exact .inl ⟨_, ‹_›, rfl⟩
          · exact .inr ⟨‹_›, rfl⟩
        · cases hs

theorem write_eq {fault : Fault} (hs : s.write a fault = some s') :
    ∃ c cs, (s.actors a).writer = .writing (c :: cs) ∧
      ((fault = none ∧ s' = s.setActor a
          { s.actors a with written := (s.actors a).written ++ c, writer := .writing cs }) ∨
       ∃ k, fault = some k ∧ s' = s.setActor a
          { s.actors a with
            written := (s.actors a).written ++ c.take k, writer := .stopped, closed := true }) := by
  unfold write at hs
  dsimp only at hs
  split at hs
  · cases hs
    refine ⟨_, _, ‹_›, ?_⟩
    cases fault
    exacts [.inl ⟨rfl, rfl⟩, .inr ⟨_, rfl, rfl⟩]
  · cases hs

theorem flush_eq {ok : Bool} (hs : s.flush a ok = some s') :
    (s.actors a).writer = .writing [] ∧
      ((ok = true ∧ s' = s.setActor a { s.actors a with writer := .waiting }) ∨
       (ok = false ∧
         s' = s.setActor a { s.actors a with writer := .stopped, closed := true })) := by
  unfold flush at hs
  dsimp only at hs
  split at hs
  · cases hs
    refine ⟨‹_›, ?_⟩
    cases ok
    exacts [.inr ⟨rfl, rfl⟩, .inl ⟨rfl, rfl⟩]
  · cases hs

theorem abort_eq (hs : s.abort a = some s') :
    (s.actors a).kind = .peer ∧ (s.actors a).stage.readerDone ∧ (s.actors a).writer ≠ .stopped ∧
      s' = s.setActor a { s.actors a with writer := .stopped, closed := true } := by
  unfold abort at hs
  dsimp only at hs
  split at hs
  · rename_i hg
    cases hs
    exact ⟨hg.1, hg.2.1, hg.2.2, rfl⟩
  · cases hs

theorem dropRx_eq (hs : s.dropRx a = some s') :
    (s.actors a).kind = .internal ∧ (s.actors a).closed = false ∧
      s' = s.setActor a { s.actors a with closed := true } := by
  unfold dropRx at hs
  dsimp only at hs
  split at hs
  · rename_i hg
    cases hs
    exact ⟨hg.1, hg.2, rfl⟩
  · cases hs

/-! ### Handshakes that succeed -/

/-- A peer whose input begins with a well-formed greeting and name is named, when every I/O
call completes. -/
theorem peerGreet_ok (name rest : Bytes) (hk : (s.actors a).kind = .peer)
    (hst : (s.actors a).stage = .start)
    (hi : (s.actors a).input = greeting s.wire ++ le16 name.length ++ name ++ rest)
    (hu : utf8Valid name = true) (hn : name ≠ []) (hd : name.head? ≠ some 0x2E)
    (hl : name.length < 2 ^ 16) :
    s.peerGreet a [] = some (s.setActor a
      { s.actors a with
        stage := .named, name, input := rest,
        hello := greeting s.wire ++ [s.wire.responseOk] }) := by
  unfold peerGreet
  simp only [hk, hst, and_self, if_true, hi, greet_ok s.wire s.db name rest [] hu hn hd hl,
    List.nil_append]

/-- A named peer whose name is vacant is registered and answered, when every I/O call
completes. -/
theorem peerRegister_ok (hk : (s.actors a).kind = .peer) (hst : (s.actors a).stage = .named)
    (hfree : (s.actors a).name ∉ s.db.clients.keys) :
    s.peerRegister a [] = some ({ s with db := s.db.registered (s.client a) }.setActor a
      { s.actors a with
        stage := .live, hello := (s.actors a).hello ++ [s.wire.responseOk], writer := .waiting,
        subLog := [] }) := by
  have hreg : s.db.registerClient (s.client a) = .ok (s.db.registered (s.client a)) :=
    BrokerDb.registerClient_ok_iff.2 ⟨hfree, rfl⟩
  unfold peerRegister
  simp [hk, hst, registerPeer, client, writeAndFlush, writeAll, Elbus.flush, nextFault,
    show s.db.registerClient ⟨(s.actors a).name, a⟩ = _ from hreg]

/-! ### Frame -/

/-- `handle` changes no task but `a`, and neither the wire constants nor the queue bound. -/
theorem handle_frame (fr : OpFrame) :
    (s.handle a fr).wire = s.wire ∧ (s.handle a fr).queueSize = s.queueSize ∧
      ∀ b, b ≠ a → (s.handle a fr).actors b = s.actors b := by
  have topics : ∀ mk, (s.handleTopics a mk fr.ackId fr.body).wire = s.wire ∧
      (s.handleTopics a mk fr.ackId fr.body).queueSize = s.queueSize ∧
      ∀ b, b ≠ a → (s.handleTopics a mk fr.ackId fr.body).actors b = s.actors b := fun mk =>
    ⟨rfl, rfl, fun b hb => by simp [handleTopics_eq, hb]⟩
  rcases handle_eq (s := s) (a := a) fr with ⟨-, he⟩ | ⟨-, he⟩ | ⟨-, he⟩ <;> rw [he]
  · exact topics _
  · exact topics _
  · rcases handleRouted_eq (s := s) (a := a) fr.op fr.ackId fr.body with ⟨-, h⟩ | ⟨-, h⟩ |
      ⟨_, _, -, -, -, -, h⟩ | ⟨_, _, -, -, h⟩ <;> rw [h] <;>
      exact ⟨rfl, rfl, fun b hb => by simp [hb]⟩

/-- `handle` queues nothing, and of task `a` changes only its stage (to `leaving` when the
reader loop ends), its op in progress, its record of sends and its patterns. -/
theorem handle_actor (fr : OpFrame) :
    (s.handle a fr).log = s.log ∧ ∃ st pc sub sent, (st = (s.actors a).stage ∨ st = .leaving) ∧
      (sent = (s.actors a).sent ∨ sent = (s.actors a).noted true .notRegistered) ∧
      (s.handle a fr).actors a = { s.actors a with stage := st, pc, subLog := sub, sent } := by
  rcases handle_eq (s := s) (a := a) fr with ⟨-, he⟩ | ⟨-, he⟩ | ⟨-, he⟩ <;> rw [he]
  any_goals
    rw [handleTopics_eq]
    refine ⟨rfl, ?_⟩
    rw [setActor_actors_self]
    split
    exacts [⟨_, _, _, _, .inl rfl, .inl rfl, rfl⟩, ⟨_, _, _, _, .inr rfl, .inl rfl, rfl⟩]
  rcases handleRouted_eq (s := s) (a := a) fr.op fr.ackId fr.body with ⟨-, h⟩ | ⟨-, h⟩ |
    ⟨_, _, -, -, -, -, h⟩ | ⟨_, _, -, -, h⟩ <;> rw [h] <;> refine ⟨rfl, ?_⟩
  · exact ⟨_, _, _, _, .inr rfl, .inl rfl, setActor_actors_self ..⟩
  · exact ⟨_, _, _, _, .inl rfl, .inl rfl, rfl⟩
  · exact ⟨_, _, _, _, .inl rfl, .inr rfl, setActor_actors_self ..⟩
  · exact ⟨_, _, _, _, .inl rfl, .inl rfl, setActor_actors_self ..⟩

/-- A step changes no task but its own, and neither the wire constants nor the queue
bound. -/
theorem step_frame {act : Action} (hs : s.step act = some s') :
    s'.wire = s.wire ∧ s'.queueSize = s.queueSize ∧
      ∀ b, b ≠ act.actor → s'.actors b = s.actors b := by
  cases act with
  | greet a fs =>
    obtain ⟨-, -, ⟨_, _, rfl⟩ | ⟨_, _, _, rfl⟩⟩ := peerGreet_eq hs <;>
      exact ⟨rfl, rfl, fun b (hb : b ≠ a) => by simp [hb]⟩
  | register a fs =>
    obtain ⟨-, -, ⟨-, _, rfl⟩ | ⟨-, _, rfl | rfl⟩⟩ := peerRegister_eq hs <;>
      exact ⟨rfl, rfl, fun b (hb : b ≠ a) => by simp [hb]⟩
  | attach a name =>
    obtain ⟨-, -, ⟨-, rfl⟩ | ⟨-, rfl⟩⟩ := attach_eq hs <;>
      exact ⟨rfl, rfl, fun b (hb : b ≠ a) => by simp [hb]⟩
  | read a fault =>
    obtain ⟨-, -, -, ⟨_, rfl⟩ | ⟨_, rfl⟩ | ⟨fr, _, -, rfl⟩⟩ := read_eq hs
    · exact ⟨rfl, rfl, fun b (hb : b ≠ a) => by simp [hb]⟩
    · exact ⟨rfl, rfl, fun b (hb : b ≠ a) => by simp [hb]⟩
    · obtain ⟨hw, hq, ha⟩ := handle_frame (s := s.setActor a _) (a := a) fr
      exact ⟨hw, hq, fun b (hb : b ≠ a) => by simp [ha b hb, hb]⟩
  | call a op =>
    obtain ⟨-, -, -, ⟨_, _, -, rfl⟩ | ⟨_, -, rfl⟩ | ⟨_, _, -, -, rfl⟩⟩ := call_eq hs <;>
      exact ⟨rfl, rfl, fun b (hb : b ≠ a) => by simp [clientTopics_eq, hb]⟩
  | deliver a =>
    obtain ⟨-, -, -, -, -, -, ⟨-, rfl⟩ | ⟨-, rfl⟩⟩ := deliver_eq hs <;>
      exact ⟨rfl, rfl, fun b (hb : b ≠ a) => by simp [hb]⟩
  | ack a =>
    obtain ⟨-, -, -, ⟨-, rfl⟩ | ⟨-, rfl⟩⟩ := ack_eq hs <;>
      exact ⟨rfl, rfl, fun b (hb : b ≠ a) => by simp [hb]⟩
  | cancel a =>
    obtain ⟨-, -, rfl⟩ := cancel_eq hs
    exact ⟨rfl, rfl, fun b (hb : b ≠ a) => by simp [hb]⟩
  | detach a =>
    obtain ⟨-, -, -, rfl⟩ := detach_eq hs
    exact ⟨rfl, rfl, fun b (hb : b ≠ a) => by simp [hb]⟩
  | unregister a =>
    obtain ⟨-, rfl⟩ | ⟨-, rfl⟩ | ⟨-, rfl⟩ := unregister_eq hs <;>
      exact ⟨rfl, rfl, fun b (hb : b ≠ a) => by simp [hb]⟩
  | recv a =>
    obtain ⟨-, -, -, ⟨-, rfl⟩ | ⟨-, -, ⟨-, -, rfl⟩ | ⟨-, rfl⟩⟩⟩ := recv_eq hs <;>
      exact ⟨rfl, rfl, fun b (hb : b ≠ a) => by simp [hb]⟩
  | write a fault =>
    obtain ⟨-, -, -, ⟨-, rfl⟩ | ⟨-, -, rfl⟩⟩ := write_eq hs <;>
      exact ⟨rfl, rfl, fun b (hb : b ≠ a) => by simp [hb]⟩
  | flush a ok =>
    obtain ⟨-, ⟨-, rfl⟩ | ⟨-, rfl⟩⟩ := flush_eq hs <;>
      exact ⟨rfl, rfl, fun b (hb : b ≠ a) => by simp [hb]⟩
  | abort a =>
    obtain ⟨-, -, -, rfl⟩ := abort_eq hs
    exact ⟨rfl, rfl, fun b (hb : b ≠ a) => by simp [hb]⟩
  | dropRx a =>
    obtain ⟨-, -, rfl⟩ := dropRx_eq hs
    exact ⟨rfl, rfl, fun b (hb : b ≠ a) => by simp [hb]⟩

/-! ### When a step is enabled -/

/-- The next send of a dispatch is taken, or refused, unless its queue is full while its
receiver is still there. -/
theorem deliver_isSome {f : FrameData} {r : ElbusClient} {rest : List ElbusClient}
    {strict : Bool} {ack : Option Bytes} (hpc : (s.actors a).pc = .sending f (r :: rest) strict ack)
    (h : (s.actors r.tx).closed = true ∨
      (s.queue r.tx).length < (s.actors r.tx).taken + s.queueSize) :
    (s.deliver a).isSome := by
  have hts : (s.trySend r.tx ⟨f, ⟨a, (s.actors a).opLog.length, false⟩⟩).isSome := by
    unfold trySend
    rcases h with h | h
    · simp [h]
    · split <;> simp [h]
  obtain ⟨e, he⟩ := Option.isSome_iff_exists.1 hts
  simp only [deliver, hpc, he]
  cases e <;> rfl

/-- A receiver still there with a frame it has not taken takes it, unless it is a writer task
busy with the frame before. -/
theorem recv_isSome (hc : (s.actors a).closed = false)
    (hlt : (s.actors a).taken < (s.queue a).length)
    (hw : (s.actors a).kind = .peer → (s.actors a).writer = .waiting) : (s.recv a).isSome := by
  have hit := List.getElem?_eq_getElem hlt
  cases hk : (s.actors a).kind
  · simp [recv, hc, hit, hk, hw hk]
  · simp [recv, hc, hit, hk]

theorem write_isSome {c : Bytes} {cs : List Bytes} (hw : (s.actors a).writer = .writing (c :: cs)) :
    (s.write a none).isSome := by
  simp [write, hw]

theorem flush_isSome (hw : (s.actors a).writer = .writing []) : (s.flush a true).isSome := by
  simp [flush, hw]

/-! ### What every step keeps -/

/-- How a step to `s'` may change task `b`'s record of sends: not at all, or by one outcome of
its current op, where a refused send met a dropped receiver and a taken one queued the op's
frame. -/
def Noted (s s' : Sys) (b : Nat) : Prop :=
  (s'.actors b).sent = (s.actors b).sent ∨
    ∃ o, (s'.actors b).sent = ((s'.actors b).opLog.length, o) :: (s.actors b).sent ∧
      (∀ d, o = .refused d → (s.actors d).closed = true) ∧
      ∀ d, o = .accepted d →
        ∃ f, (⟨d, ⟨f, ⟨b, (s'.actors b).opLog.length, false⟩⟩⟩ : Delivery) ∈ s'.log

/-- What every step keeps: the queues only grow, no dropped receiver comes back, and a record
of sends changes only as `Noted` allows. -/
structure Keeps (s s' : Sys) : Prop where
  log : s.log <+: s'.log
  closed : ∀ b, (s.actors b).closed = true → (s'.actors b).closed = true
  sent : ∀ b, Noted s s' b

theorem step_keeps {act : Action} (hs : s.step act = some s') : Keeps s s' := by
  obtain ⟨-, -, ho⟩ := step_frame hs
  suffices h : s.log <+: s'.log ∧
      ((s.actors act.actor).closed = true → (s'.actors act.actor).closed = true) ∧
      Noted s s' act.actor by
    refine ⟨h.1, fun b hc => ?_, fun b => ?_⟩ <;> by_cases hb : b = act.actor
    · exact hb ▸ h.2.1 (hb ▸ hc)
    · rwa [ho b hb]
    · exact hb ▸ h.2.2
    · exact .inl (by rw [ho b hb])
  cases act <;> dsimp only [Action.actor]
  case greet a fs =>
    obtain ⟨-, -, ⟨_, _, rfl⟩ | ⟨_, _, _, rfl⟩⟩ := peerGreet_eq hs <;>
      exact ⟨List.prefix_refl _, by simp, .inl (by simp)⟩
  case register a fs =>
    obtain ⟨-, -, ⟨-, _, rfl⟩ | ⟨-, _, rfl | rfl⟩⟩ := peerRegister_eq hs <;>
      exact ⟨List.prefix_refl _, by simp, .inl (by simp)⟩
  case attach a name =>
    obtain ⟨-, -, ⟨-, rfl⟩ | ⟨-, rfl⟩⟩ := attach_eq hs <;>
      exact ⟨List.prefix_refl _, by simp, .inl (by simp)⟩
  case read a fault =>
    obtain ⟨-, -, -, ⟨_, rfl⟩ | ⟨_, rfl⟩ | ⟨fr, i, -, rfl⟩⟩ := read_eq hs
    · exact ⟨List.prefix_refl _, by simp [Actor.leave], .inl (by simp [Actor.leave])⟩
    · exact ⟨List.prefix_refl _, by simp, .inl (by simp)⟩
    · obtain ⟨hlog, _, _, _, _, -, hn, hx⟩ := handle_actor (a := a) (s := s.setActor a
        { s.actors a with input := i, opLog := .wire fr.opId fr.op fr.qos :: (s.actors a).opLog })
        fr
      refine ⟨by rw [hlog]; exact List.prefix_refl _, by simp [hx], ?_⟩
      rcases hn with hn | hn
      · exact .inl (by simp [hx, hn])
      · exact .inr ⟨.notRegistered, by simp [hx, hn, Actor.noted], nofun, nofun⟩
  case call a op =>
    obtain ⟨-, -, -, ⟨_, _, -, rfl⟩ | ⟨_, -, rfl⟩ | ⟨_, _, -, -, rfl⟩⟩ := call_eq hs
    · exact ⟨List.prefix_refl _, by simp [clientTopics_eq], .inl (by simp [clientTopics_eq])⟩
    · exact ⟨List.prefix_refl _, by simp, .inr ⟨.notRegistered, by simp [Actor.noted], nofun, nofun⟩⟩
    · exact ⟨List.prefix_refl _, by simp, .inl (by simp)⟩
  case deliver a =>
    obtain ⟨f, r, rest, strict, ack, -, ⟨-, rfl⟩ | ⟨hc, rfl⟩⟩ := deliver_eq hs <;>
      refine ⟨by simp, by simp, ?_⟩ <;> cases strict
    · exact .inl (by simp [Actor.noted])
    · exact .inr ⟨.accepted r.tx, by simp [Actor.noted], nofun,
        fun d hd => ⟨f, by cases hd; simp⟩⟩
    · exact .inl (by simp [Actor.noted])
    · exact .inr ⟨.refused r.tx, by simp [Actor.noted], fun d hd => by cases hd; exact hc, nofun⟩
  case ack a =>
    obtain ⟨-, -, -, ⟨-, rfl⟩ | ⟨-, rfl⟩⟩ := ack_eq hs
    · exact ⟨by simp, by simp, .inl (by simp)⟩
    · exact ⟨List.prefix_refl _, by simp [Actor.leave], .inl (by simp [Actor.leave])⟩
  case cancel a =>
    obtain ⟨-, -, rfl⟩ := cancel_eq hs
    exact ⟨List.prefix_refl _, by simp, .inl (by simp)⟩
  case detach a =>
    obtain ⟨-, -, -, rfl⟩ := detach_eq hs
    exact ⟨List.prefix_refl _, by simp [Actor.leave], .inl (by simp [Actor.leave])⟩
  case unregister a =>
    obtain ⟨-, rfl⟩ | ⟨-, rfl⟩ | ⟨-, rfl⟩ := unregister_eq hs <;>
      exact ⟨List.prefix_refl _, by simp, .inl (by simp)⟩
  case recv a =>
    obtain ⟨-, -, -, ⟨-, rfl⟩ | ⟨-, -, ⟨-, -, rfl⟩ | ⟨-, rfl⟩⟩⟩ := recv_eq hs <;>
      exact ⟨List.prefix_refl _, by simp, .inl (by simp)⟩
  case write a fault =>
    obtain ⟨-, -, -, ⟨-, rfl⟩ | ⟨-, -, rfl⟩⟩ := write_eq hs <;>
      exact ⟨List.prefix_refl _, by simp, .inl (by simp)⟩
  case flush a ok =>
    obtain ⟨-, ⟨-, rfl⟩ | ⟨-, rfl⟩⟩ := flush_eq hs <;>
      exact ⟨List.prefix_refl _, by simp, .inl (by simp)⟩
  case abort a =>
    obtain ⟨-, -, -, rfl⟩ := abort_eq hs
    exact ⟨List.prefix_refl _, by simp, .inl (by simp)⟩
  case dropRx a =>
    obtain ⟨-, -, rfl⟩ := dropRx_eq hs
    exact ⟨List.prefix_refl _, by simp, .inl (by simp)⟩

end Sys

end Elbus
