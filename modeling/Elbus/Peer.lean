import Elbus.Dispatch

/-!
# The handshake of `handle_peer`

`handle_peer` greets the peer, reads its name, registers it, and only then starts the
writer task and the reader loop. Everything before the reader loop is an I/O program over
one connection; here it runs in `PeerM`, whose state is the shared registry together with
what the peer sends, the outcome of each of the server's I/O calls, and what reached the
peer. An error keeps the state, as the registry keeps a registration when `handle_peer`
returns early.

* `greet`, `registerPeer`, `handshake`: the handshake, cut where `Elbus.System` lets other
  tasks in (after `register_client`).
* `handshake_registers`: whatever the peer sends and however the I/O calls end, the
  handshake registers one valid name with the task's own handle, or nothing.
* `handshake_bad_utf8_unanswered`: a name that is not UTF-8 closes the connection with no
  status byte; the sibling checks answer `ERR_DATA`.
* `handlePeer_leaves_registration`: a failed write of the final `RESPONSE_OK` returns from
  `handle_peer` after a successful `register_client` without `unregister_client`.
-/

namespace Elbus

/-- The outcome of one I/O call of the server: `none` when it completes, `some k` when it
fails (an I/O error or a timeout) after `k` of its bytes reached the peer. -/
abbrev Fault := Option Nat

/-- One connection: the shared registry, the bytes the peer sends, the outcomes of the
server's I/O calls in order (a call past the end of the list completes), and the bytes that
reached the peer. -/
structure Conn where
  db : BrokerDb
  input : Bytes
  faults : List Fault
  written : Bytes

/-- The handshake's monad: a step on the connection that returns a value or an error, and
keeps the connection either way. -/
def PeerM (α : Type) : Type := Conn → Except Error α × Conn

namespace PeerM

/-- Return a value, the connection unchanged. -/
def pure {α : Type} (a : α) : PeerM α := fun c => (.ok a, c)

/-- Run `x`, then `f` on its value; an error skips `f`. -/
def bind {α β : Type} (x : PeerM α) (f : α → PeerM β) : PeerM β := fun c =>
  match x c with
  | (.ok a, c') => f a c'
  | (.error e, c') => (.error e, c')

instance : Monad PeerM where
  pure := PeerM.pure
  bind := PeerM.bind

/-- Return from the function with an error (`?` on an `Err`). -/
def fail {α : Type} (e : Error) : PeerM α := fun c => (.error e, c)

/-- Change the connection. -/
def modify (f : Conn → Conn) : PeerM Unit := fun c => (.ok (), f c)

/-- Read the connection. -/
def get : PeerM Conn := fun c => (.ok c, c)

/-- Keep the result of `x`, error or not (`let result = ...await`). -/
def observe {α : Type} (x : PeerM α) : PeerM (Except Error α) := fun c =>
  match x c with
  | (r, c') => (.ok r, c')

@[simp] theorem pure_apply {α : Type} (a : α) (c : Conn) : (Pure.pure a : PeerM α) c = (.ok a, c) :=
  rfl

@[simp] theorem bind_apply {α β : Type} (x : PeerM α) (f : α → PeerM β) (c : Conn) :
    (x >>= f) c = match x c with
      | (.ok a, c') => f a c'
      | (.error e, c') => (.error e, c') := rfl

@[simp] theorem fail_apply {α : Type} (e : Error) (c : Conn) :
    (fail e : PeerM α) c = (.error e, c) :=
  rfl

@[simp] theorem modify_apply (f : Conn → Conn) (c : Conn) : modify f c = (.ok (), f c) := rfl

@[simp] theorem get_apply (c : Conn) : get c = (.ok c, c) := rfl

end PeerM

/-- The outcome of the next I/O call. -/
def nextFault : PeerM Fault :=
  fun c => (.ok c.faults.head?.join, { c with faults := c.faults.tail })

/-- `time::timeout(timeout, writer.write_all(buf)).await??`. -/
def writeAll (buf : Bytes) : PeerM Unit := do
  match ← nextFault with
  | none => PeerM.modify fun c => { c with written := c.written ++ buf }
  | some k =>
    PeerM.modify fun c => { c with written := c.written ++ buf.take k }
    PeerM.fail ⟨.io⟩

/-- `time::timeout(timeout, writer.flush()).await??`. -/
def flush : PeerM Unit := do
  match ← nextFault with
  | none => pure ()
  | some _ => PeerM.fail ⟨.io⟩

/-- `write_and_flush!`. -/
def writeAndFlush (buf : Bytes) : PeerM Unit := do
  writeAll buf
  flush

/-- `time::timeout(timeout, reader.read_exact(&mut buf)).await??`: the next `n` bytes of
input, or `Eof` when the peer sent fewer. -/
def readExact (n : Nat) : PeerM Bytes := do
  match ← nextFault with
  | some _ => PeerM.fail ⟨.io⟩
  | none =>
    let c ← PeerM.get
    if n ≤ c.input.length then
      PeerM.modify fun c => { c with input := c.input.drop n }
      pure (c.input.take n)
    else
      PeerM.modify fun c => { c with input := [] }
      PeerM.fail ⟨.eof⟩

/-- `GREETINGS` followed by `PROTOCOL_VERSION.to_le_bytes()`. -/
def greeting (W : Wire) : Bytes := W.greetings :: le16 W.protocolVersion.toNat

/-- The version bytes of the greeting read back as the version. -/
theorem u16le_version (W : Wire) :
    u16le [UInt8.ofNat W.protocolVersion.toNat, UInt8.ofNat (W.protocolVersion.toNat / 256)] =
      W.protocolVersion.toNat := by
  rw [← le16, u16le_le16]
  exact Nat.mod_eq_of_lt W.protocolVersion.toNat_lt_size

/-- The handshake up to the name check: the greeting both ways, then the name. A bad
greeting or version is answered with `ERR_NOT_SUPPORTED`, an empty name or one that starts
with `.` with `ERR_DATA`; a name that is not UTF-8 leaves by `from_utf8(&buf)?`. -/
def greet (W : Wire) : PeerM Bytes := do
  writeAndFlush (greeting W)
  let buf ← readExact 3
  if buf.head? ≠ some W.greetings then
    writeAndFlush [W.errNotSupported]
    PeerM.fail ⟨.notSupported⟩
  if u16le (buf.drop 1) ≠ W.protocolVersion.toNat then
    writeAndFlush [W.errNotSupported]
    PeerM.fail ⟨.notSupported⟩
  writeAndFlush [W.responseOk]
  let len ← readExact 2
  let name ← readExact (u16le len)
  if !utf8Valid name then
    PeerM.fail ⟨.data⟩
  if name.isEmpty || name.head? == some 0x2E then
    writeAndFlush [W.errData]
    PeerM.fail ⟨.data⟩
  pure name

/-- **A well-formed greeting passes.** A peer that answers the greeting and sends the length
and bytes of a name that is UTF-8, not empty and does not start with `.`, with every I/O
call completing, is read up to the end of its name and has seen the greeting and
`RESPONSE_OK`. -/
theorem greet_ok (W : Wire) (db : BrokerDb) (name rest w : Bytes) (hu : utf8Valid name = true)
    (hn : name ≠ []) (hd : name.head? ≠ some 0x2E) (hl : name.length < 2 ^ 16) :
    greet W ⟨db, greeting W ++ le16 name.length ++ name ++ rest, [], w⟩ =
      (.ok name, ⟨db, rest, [], w ++ greeting W ++ [W.responseOk]⟩) := by
  have hlen : u16le [UInt8.ofNat name.length, UInt8.ofNat (name.length / 256)] = name.length := by
    rw [← le16, u16le_le16, Nat.mod_eq_of_lt hl]
  simp [greet, writeAndFlush, writeAll, flush, readExact, nextFault, greeting, le16, u16le_version,
    hlen, hu, hn, hd]

/-- `register_client` for the name, with the handle of task `a`; a refusal is answered with
the error's kind byte. -/
def registerPeer (W : Wire) (a : Nat) (name : Bytes) : PeerM ElbusClient := do
  let client : ElbusClient := ⟨name, a⟩
  match (← PeerM.get).db.registerClient client with
  | .error e =>
    writeAndFlush [W.kindCode e.kind]
    PeerM.fail e
  | .ok db =>
    PeerM.modify fun c => { c with db }
    pure client

/-- The whole handshake: greeting, name, registration, and the final `RESPONSE_OK`. -/
def handshake (W : Wire) (a : Nat) : PeerM ElbusClient := do
  let client ← registerPeer W a (← greet W)
  writeAndFlush [W.responseOk]
  pure client

/-- `handle_peer` around its reader loop: after the handshake, the result of the reader is
kept, the client is unregistered, and the result returned. The writer task and the reader
loop are steps of `Elbus.System`; here the loop is a parameter. -/
def handlePeer (W : Wire) (a : Nat) (handleReader : ElbusClient → PeerM Unit) : PeerM Unit := do
  let client ← handshake W a
  let result ← PeerM.observe (handleReader client)
  PeerM.modify fun c => { c with db := c.db.unregisterClient client }
  match result with
  | .ok () => pure ()
  | .error e => PeerM.fail e

/-! ### The registry through the handshake -/

/-- A step of the handshake that leaves the registry alone. -/
def PeerM.KeepsDb {α : Type} (x : PeerM α) : Prop := ∀ c, (x c).2.db = c.db

theorem PeerM.KeepsDb.bind {α β : Type} {x : PeerM α} {f : α → PeerM β} (hx : x.KeepsDb)
    (hf : ∀ a, (f a).KeepsDb) : (x >>= f).KeepsDb := by
  intro c
  rw [PeerM.bind_apply]
  rcases h : x c with ⟨_ | a, c'⟩
  · simpa [h] using hx c
  · simpa [h, hf a c'] using hx c

theorem writeAll_keepsDb (bs : Bytes) : (writeAll bs).KeepsDb := by
  intro c
  simp only [writeAll, PeerM.bind_apply, nextFault]
  rcases c.faults.head?.join with _ | k <;> rfl

theorem flush_keepsDb : flush.KeepsDb := by
  intro c
  simp only [flush, PeerM.bind_apply, nextFault]
  rcases c.faults.head?.join with _ | k <;> rfl

/-- Writes never touch the registry. -/
theorem writeAndFlush_keepsDb (bs : Bytes) : (writeAndFlush bs).KeepsDb :=
  (writeAll_keepsDb bs).bind fun _ => flush_keepsDb

theorem PeerM.keepsDb_pure {α : Type} (a : α) : (Pure.pure a : PeerM α).KeepsDb := fun _ => rfl

theorem PeerM.keepsDb_fail {α : Type} (e : Error) : (PeerM.fail e : PeerM α).KeepsDb :=
  fun _ => rfl

/-- Reads never touch the registry. -/
theorem readExact_keepsDb (n : Nat) : (readExact n).KeepsDb := by
  intro c
  simp only [readExact, PeerM.bind_apply, nextFault]
  rcases c.faults.head?.join with _ | k
  · simp only [PeerM.get_apply, PeerM.bind_apply]
    split <;> rfl
  · rfl

/-- The greeting and the checks of the name never touch the registry. -/
theorem greet_keepsDb (W : Wire) : (greet W).KeepsDb := by
  unfold greet
  dsimp only
  repeat' first | split | with_reducible exact readExact_keepsDb _ |
    with_reducible exact writeAndFlush_keepsDb _ | with_reducible exact PeerM.keepsDb_pure _ |
    with_reducible exact PeerM.keepsDb_fail _ |
    with_reducible refine PeerM.KeepsDb.bind ?_ fun _ => ?_

/-! ### What the handshake returns -/

/-- Every value `x` returns has `P`. -/
def PeerM.Ensures {α : Type} (x : PeerM α) (P : α → Prop) : Prop :=
  ∀ c a c', x c = (.ok a, c') → P a

theorem PeerM.Ensures.bind {α β : Type} {x : PeerM α} {f : α → PeerM β} {P : β → Prop}
    (hf : ∀ a, (f a).Ensures P) : (x >>= f).Ensures P := by
  intro c b c' h
  rw [PeerM.bind_apply] at h
  rcases hx : x c with ⟨_ | a, c₁⟩ <;> rw [hx] at h
  · cases h
  · exact hf a c₁ b c' h

theorem PeerM.ensures_pure {α : Type} {a : α} {P : α → Prop} (h : P a) :
    (Pure.pure a : PeerM α).Ensures P := by
  rintro c b c' ⟨⟩
  exact h

theorem PeerM.ensures_fail {α : Type} (e : Error) (P : α → Prop) :
    (PeerM.fail e : PeerM α).Ensures P := nofun

/-- A name that `greet` returns passed its checks: UTF-8, not empty, not starting with `.`. -/
theorem greet_name (W : Wire) :
    (greet W).Ensures fun name => utf8Valid name = true ∧ name ≠ [] ∧ name.head? ≠ some 0x2E := by
  unfold greet
  dsimp only
  repeat' first | exact PeerM.ensures_fail _ _ | split | refine PeerM.Ensures.bind fun _ => ?_
  exact PeerM.ensures_pure (by simp_all)

/-- A successful `registerPeer` is the registration of the name with the task's handle. -/
theorem registerPeer_ok {W : Wire} {a : Nat} {name : Bytes} {c c' : Conn} {cl : ElbusClient}
    (h : registerPeer W a name c = (.ok cl, c')) :
    cl = ⟨name, a⟩ ∧ c.db.registerClient ⟨name, a⟩ = .ok c'.db := by
  simp only [registerPeer, PeerM.bind_apply, PeerM.get_apply] at h
  rcases hr : c.db.registerClient ⟨name, a⟩ with e | db <;> rw [hr] at h
  · simp only [PeerM.bind_apply] at h
    split at h <;> simp at h
  · simp only [PeerM.modify_apply, PeerM.pure_apply, Prod.mk.injEq, Except.ok.injEq] at h
    obtain ⟨rfl, rfl⟩ := h
    exact ⟨rfl, rfl⟩

/-- `registerPeer` fails only where `register_client` refuses the name, and then leaves the
registry as it was. -/
theorem registerPeer_error {W : Wire} {a : Nat} {name : Bytes} {c c' : Conn} {e : Error}
    (h : registerPeer W a name c = (.error e, c')) :
    (∃ e', c.db.registerClient ⟨name, a⟩ = .error e') ∧ c'.db = c.db := by
  simp only [registerPeer, PeerM.bind_apply, PeerM.get_apply] at h
  rcases hr : c.db.registerClient ⟨name, a⟩ with e' | db <;> rw [hr] at h
  · refine ⟨⟨e', rfl⟩, ?_⟩
    have hw := writeAndFlush_keepsDb [W.kindCode e'.kind] c
    simp only [PeerM.bind_apply] at h
    split at h <;> rename_i hc <;> rw [hc] at hw <;>
      simp only [PeerM.fail_apply, Prod.mk.injEq] at h <;> rw [← h.2, hw]
  · simp at h

/-- **The handshake registers the peer's name or nothing.** Whatever the peer sends and
however each I/O call ends, the handshake leaves the registry as it found it, or as
`register_client` leaves it for one name with the task's own handle; a name it registers is
UTF-8, not empty, and does not start with `.`. -/
theorem handshake_registers (W : Wire) (a : Nat) (c : Conn) :
    (handshake W a c).2.db = c.db ∨
      ∃ name, (utf8Valid name = true ∧ name ≠ [] ∧ name.head? ≠ some 0x2E) ∧
        c.db.registerClient ⟨name, a⟩ = .ok (handshake W a c).2.db := by
  have hg := greet_keepsDb W c
  simp only [handshake, PeerM.bind_apply]
  rcases h₁ : greet W c with ⟨_ | name, c₁⟩ <;> simp only [h₁] at hg ⊢
  · exact .inl hg
  rcases h₂ : registerPeer W a name c₁ with ⟨_ | cl, c₂⟩ <;> simp only [h₂]
  · exact .inl ((registerPeer_error h₂).2.trans hg)
  have hw := writeAndFlush_keepsDb [W.responseOk] c₂
  refine .inr ⟨name, greet_name W c _ _ h₁, ?_⟩
  rw [← hg, (registerPeer_ok h₂).2]
  rcases h₃ : writeAndFlush [W.responseOk] c₂ with ⟨_ | _, c₃⟩ <;>
    simp only [h₃, PeerM.pure_apply] at hw ⊢ <;> rw [hw]

/-! ### The name that is not UTF-8 -/

/-- **A name that is not UTF-8 gets no answer.** With every I/O call completing, a peer that
sends the right greeting and then the one-byte name `0xFF` sees the greeting and
`RESPONSE_OK`, and then the connection closes: `from_utf8(&buf)?` returns before the
`ERR_DATA` that an empty or reserved name gets. -/
theorem handshake_bad_utf8_unanswered (W : Wire) (db : BrokerDb) (a : Nat) :
    handshake W a ⟨db, greeting W ++ [1, 0, 0xFF], [], []⟩ =
      (.error ⟨.data⟩, ⟨db, [], [], greeting W ++ [W.responseOk]⟩) := by
  have hlen : u16le [1, 0] = 1 := rfl
  simp [handshake, greet, registerPeer, writeAndFlush, writeAll, flush, readExact, nextFault,
    greeting, le16, u16le_version, hlen, utf8Valid, utf8Run, utf8Step, utf8Lead]

/-! ### The registration that outlives its connection -/

/-- **`handle_peer` can return with its client still registered.** A peer that sends the
greeting and the vacant name `abc`, and whose final `RESPONSE_OK` fails to write (an I/O
error or a timeout), makes `handle_peer` return `Err` from the `?` of `write_and_flush!`,
before the reader loop and the `unregister_client` after it, whatever that loop does. The
client stays in all three indexes, and every later registration of `abc` is `busy`. -/
theorem handlePeer_leaves_registration (W : Wire) (a : Nat)
    (handleReader : ElbusClient → PeerM Unit) :
    let run := handlePeer W a handleReader
      ⟨BrokerDb.default, greeting W ++ [3, 0, 0x61, 0x62, 0x63],
        [none, none, none, none, none, none, none, some 0], []⟩
    run.1 = .error ⟨.io⟩ ∧ run.2.db = BrokerDb.default.registered ⟨[0x61, 0x62, 0x63], a⟩ ∧
      ∀ b, run.2.db.registerClient ⟨[0x61, 0x62, 0x63], b⟩ = .error ⟨.busy⟩ := by
  have hlen : u16le [3, 0] = 3 := rfl
  have hfree : BrokerDb.default.registerClient ⟨[0x61, 0x62, 0x63], a⟩ =
      .ok (BrokerDb.default.registered ⟨[0x61, 0x62, 0x63], a⟩) :=
    BrokerDb.registerClient_ok_iff.2 ⟨by simp [BrokerDb.default, KeyedList.keys], rfl⟩
  have hrun : handlePeer W a handleReader
      ⟨BrokerDb.default, greeting W ++ [3, 0, 0x61, 0x62, 0x63],
        [none, none, none, none, none, none, none, some 0], []⟩ =
      (.error ⟨.io⟩, ⟨BrokerDb.default.registered ⟨[0x61, 0x62, 0x63], a⟩, [], [],
        greeting W ++ [W.responseOk]⟩) := by
    simp [handlePeer, handshake, greet, registerPeer, writeAndFlush, writeAll, flush, readExact,
      nextFault, greeting, le16, u16le_version, hlen, hfree, utf8Valid, utf8Run, utf8Step, utf8Lead]
  rw [hrun]
  exact ⟨rfl, rfl, fun b => BrokerDb.registerClient_error_iff.2
    ⟨BrokerDb.name_mem_registered _ _, rfl⟩⟩

end Elbus
