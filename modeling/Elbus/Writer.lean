import Elbus.Peer

/-!
# The writer task

The task that `handle_peer` spawns drains the client's queue and writes each frame to the
socket: a `Prepared` frame verbatim, a routed one as a header it builds (kind, length,
reserved byte, sender, topic) followed by the frame's header and payload, each piece by one
`write_data!` (an empty piece is skipped), then a flush. The first failed or timed-out
write or flush ends the task.

* `frameBytes_isSome`: a well-shaped frame is written without a panic.
* `decode_frameBytes`: decoding by the grammar of §4.3 gives back kind, sender, topic, and
  header with payload, when the sender and the topic hold no NUL; `decode_cuts_nul_sender`
  shows that a sender the handshake accepts can hold one.
* `length_field_mod`: bytes 1..5 carry the length of the rest of the frame modulo `2^32`;
  `length_field_wraps` exhibits a wire frame where the cast truncates.
-/

namespace Elbus

/-- `extra_len + frame.buf.len() - frame.payload_pos + 1`, in `usize`, where `extra_len` is
the sender's length, plus the topic's and one, plus the header's. -/
def frameLen (f : FrameData) (sender : Bytes) : Nat :=
  sender.length + (f.topic.map (·.length + 1)).getD 0 + (f.header.map List.length).getD 0
    + f.buf.length - f.payloadPos + 1

/-- The header the writer builds for a routed frame: the kind byte, `frame_len as u32`, a
reserved zero, the sender and a NUL, and for a publication the topic and a NUL. -/
def routedHeader (W : Wire) (f : FrameData) (sender : Bytes) : Bytes :=
  W.frameKindCode f.kind :: (le32 (frameLen f sender) ++
    0 :: (sender ++ 0 :: (f.topic.map (· ++ [0])).getD []))

/-- The pieces one turn of the writer loop writes for a frame, before its flush; `none`
where the turn panics: `frame.sender.as_ref().unwrap()` with no sender, or
`frame.payload()` past the end of `buf`. -/
def writeChunks (W : Wire) (f : FrameData) : Option (List Bytes) :=
  if f.kind = .prepared then some [f.buf]
  else
    match f.sender, f.payload with
    | some sender, some payload => some [routedHeader W f sender, f.header.getD [], payload]
    | _, _ => none

/-- The bytes of one frame on the socket. -/
def frameBytes (W : Wire) (f : FrameData) : Option Bytes := (writeChunks W f).map List.flatten

/-- A well-shaped frame is written without a panic. -/
theorem frameBytes_isSome (W : Wire) {f : FrameData} (h : f.WellShaped) :
    (frameBytes W f).isSome := by
  by_cases hk : f.kind = .prepared
  · simp [frameBytes, writeChunks, hk]
  · obtain ⟨hs, hpos⟩ := h.routed hk
    obtain ⟨s, hs⟩ := Option.isSome_iff_exists.1 hs
    simp [frameBytes, writeChunks, FrameData.payload, hk, hs, hpos]

/-! ### The length field -/

/-- The rest of a routed frame after byte 5: sender, NUL, topic and NUL for a publication,
header, payload. -/
theorem frameLen_eq (f : FrameData) (sender : Bytes) (hpos : f.payloadPos ≤ f.buf.length) :
    frameLen f sender = sender.length + 1 + (f.topic.map (·.length + 1)).getD 0 +
      (f.header.getD []).length + (f.buf.drop f.payloadPos).length := by
  have hh : (f.header.map List.length).getD 0 = (f.header.getD []).length := by
    cases f.header <;> rfl
  simp only [frameLen, List.length_drop, hh]
  omega

theorem frameBytes_routed {W : Wire} {f : FrameData} {bs : Bytes} (hk : f.kind ≠ .prepared)
    (h : frameBytes W f = some bs) :
    ∃ sender, f.sender = some sender ∧ f.payloadPos ≤ f.buf.length ∧
      bs = routedHeader W f sender ++ (f.header.getD [] ++ f.buf.drop f.payloadPos) := by
  unfold frameBytes writeChunks FrameData.payload at h
  rw [if_neg hk] at h
  split at h
  · rename_i sender payload hs hp
    split at hp
    · cases hp
      simp only [Option.map_some', List.flatten, List.append_nil, Option.some.injEq] at h
      exact ⟨sender, hs, ‹_›, by rw [← h]⟩
    · cases hp
  · cases h

/-- After its first six bytes, a routed frame holds `frame_len` bytes. -/
theorem frameBytes_length {W : Wire} {f : FrameData} {bs : Bytes} (hk : f.kind ≠ .prepared)
    (h : frameBytes W f = some bs) :
    ∃ sender, f.sender = some sender ∧ bs.length - 6 = frameLen f sender ∧
      u32le (bs.drop 1) = frameLen f sender % 2 ^ 32 := by
  obtain ⟨sender, hs, hpos, rfl⟩ := frameBytes_routed hk h
  have ht : ((f.topic.map (· ++ [0])).getD []).length = (f.topic.map (·.length + 1)).getD 0 := by
    cases f.topic <;> simp
  refine ⟨sender, hs, ?_, ?_⟩
  · rw [frameLen_eq f sender hpos]
    simp only [routedHeader, List.length_append, List.length_cons, le32_length, ht]
    omega
  · rw [← u32le_le32]
    simp [routedHeader, le32, u32le]

/-- **The length field, modulo `2^32`.** For every routed frame the writer writes, bytes
1..5 hold the number of bytes that follow byte 5, reduced modulo `2^32` by `as u32`, and
equal it exactly when it is below `2^32`. -/
theorem length_field_mod (W : Wire) {f : FrameData} {bs : Bytes} (hk : f.kind ≠ .prepared)
    (h : frameBytes W f = some bs) :
    u32le (bs.drop 1) = (bs.length - 6) % 2 ^ 32 ∧
      (u32le (bs.drop 1) = bs.length - 6 ↔ bs.length - 6 < 2 ^ 32) := by
  obtain ⟨sender, -, hlen, hfield⟩ := frameBytes_length hk h
  rw [hfield, hlen]
  exact ⟨rfl, fun h' => h' ▸ Nat.mod_lt _ (Nat.two_pow_pos 32), Nat.mod_eq_of_lt⟩

/-- `length_field_mod` at the message `hi` from `A` to `B`, for every constant table. -/
theorem length_field_mod_small :
    (routed .message ⟨[0x41], 0⟩ none none [0x42, 0, 0x68, 0x69] 2).kind ≠ .prepared ∧
      ∀ W : Wire, ∃ bs,
        frameBytes W (routed .message ⟨[0x41], 0⟩ none none [0x42, 0, 0x68, 0x69] 2) = some bs ∧
          u32le (bs.drop 1) = (bs.length - 6) % 2 ^ 32 := by
  refine ⟨by decide, fun W => ?_⟩
  obtain ⟨bs, h⟩ := Option.isSome_iff_exists.1
    (frameBytes_isSome W (f := routed .message ⟨[0x41], 0⟩ none none [0x42, 0, 0x68, 0x69] 2)
      ⟨rfl, rfl, by decide⟩)
  exact ⟨bs, h, (length_field_mod W (by decide) h).1⟩

/-- A message from `AAA` to `B` whose body is `B`, a NUL and a payload of `2^32 - 3` bytes,
`u32::MAX` bytes in all: the broker builds the frame, and the writer writes `2^32 + 1`
bytes after byte 5 for it with `1` in the length field. -/
theorem max_body_field (p : Bytes) (hp : p.length = 2 ^ 32 - 3) :
    (0x42 :: 0 :: p).length = 2 ^ 32 - 1 ∧
    wireOffer (BrokerDb.default.registered ⟨[0x42], 1⟩) ⟨[0x41, 0x41, 0x41], 0⟩ .message
        (0x42 :: 0 :: p) =
      .ok ⟨routed .message ⟨[0x41, 0x41, 0x41], 0⟩ none none (0x42 :: 0 :: p) 2, [⟨[0x42], 1⟩]⟩ ∧
    ∀ W : Wire, ∀ bs,
      frameBytes W (routed .message ⟨[0x41, 0x41, 0x41], 0⟩ none none (0x42 :: 0 :: p) 2) =
        some bs →
        bs.length - 6 = 2 ^ 32 + 1 ∧ u32le (bs.drop 1) = 1 := by
  refine ⟨by rw [List.length_cons, List.length_cons]; omega, rfl, fun W bs h => ?_⟩
  obtain ⟨sender, hs, hlen, hfield⟩ := frameBytes_length (by simp [routed]) h
  cases hs
  have hL : frameLen (routed .message ⟨[0x41, 0x41, 0x41], 0⟩ none none (0x42 :: 0 :: p) 2)
      [0x41, 0x41, 0x41] = 2 ^ 32 + 1 := by
    simp only [frameLen, routed, Option.map_none', Option.getD_none, List.length_cons,
      List.length_nil]
    omega
  rw [hlen, hfield, hL]
  exact ⟨rfl, rfl⟩

/-- **The cast truncates.** Some body of `u32::MAX` bytes makes a frame whose length field
is `1` while `2^32 + 1` bytes follow byte 5. -/
theorem length_field_wraps :
    ∃ p : Bytes, (0x42 :: 0 :: p).length = 2 ^ 32 - 1 ∧
      wireOffer (BrokerDb.default.registered ⟨[0x42], 1⟩) ⟨[0x41, 0x41, 0x41], 0⟩ .message
          (0x42 :: 0 :: p) =
        .ok ⟨routed .message ⟨[0x41, 0x41, 0x41], 0⟩ none none (0x42 :: 0 :: p) 2, [⟨[0x42], 1⟩]⟩ ∧
      ∀ W : Wire, ∀ bs,
        frameBytes W (routed .message ⟨[0x41, 0x41, 0x41], 0⟩ none none (0x42 :: 0 :: p) 2) =
          some bs → bs.length - 6 = 2 ^ 32 + 1 ∧ u32le (bs.drop 1) = 1 :=
  ⟨List.replicate (2 ^ 32 - 3) 0x61, max_body_field _ (List.length_replicate _ _)⟩

/-! ### Reading a routed frame back -/

/-- The routed kind with this byte. -/
def routedKindOf (W : Wire) (b : UInt8) : Option FrameKind :=
  [FrameKind.message, .broadcast, .publish].find? (fun k => W.frameKindCode k == b)

/-- A routed frame read by the grammar of §4.3: the kind byte, the length, the reserved
byte, the sender up to the first NUL, for a publication the topic up to the next NUL, and
the remaining bytes. -/
def decodeRouted (W : Wire) : Bytes → Option (FrameKind × Bytes × Option Bytes × Bytes)
  | k :: _ :: _ :: _ :: _ :: _ :: rest =>
    (routedKindOf W k).bind fun kind =>
      match splitTarget rest with
      | (sender, some after) =>
        if kind = .publish then
          match splitTarget after with
          | (topic, some data) => some (kind, sender, some topic, data)
          | (_, none) => none
        else some (kind, sender, none, after)
      | (_, none) => none
  | _ => none

theorem routedKindOf_code (W : Wire) {k : FrameKind} (hk : k ≠ .prepared) :
    routedKindOf W (W.frameKindCode k) = some k := by
  cases k <;> simp_all [routedKindOf, W.frameKindCode_injective.eq_iff]

/-- **Decoding inverts the writer** on frames whose sender, and topic for a publication,
hold no NUL: the grammar of §4.3 gives back the kind, the sender, the topic, and the
header followed by the payload. -/
theorem decode_frameBytes (W : Wire) {f : FrameData} {sender bs : Bytes} (hw : f.WellShaped)
    (hk : f.kind ≠ .prepared) (hs : f.sender = some sender) (hsn : (0 : UInt8) ∉ sender)
    (htn : ∀ t, f.topic = some t → (0 : UInt8) ∉ t) (h : frameBytes W f = some bs) :
    decodeRouted W bs =
      some (f.kind, sender, f.topic, f.header.getD [] ++ f.buf.drop f.payloadPos) := by
  obtain ⟨s', hs', -, rfl⟩ := frameBytes_routed hk h
  rw [hs] at hs'
  cases hs'
  have hkind := routedKindOf_code W hk
  unfold FrameData.WellShaped at hw
  split at hw <;> rename_i hkf
  · contradiction
  · obtain ⟨t, ht⟩ := Option.isSome_iff_exists.1 hw.2.1
    rw [hkf] at hkind ⊢
    simp [decodeRouted, routedHeader, le32, hkind, hkf, ht, splitTarget_append_nul hsn,
      splitTarget_append_nul (htn t ht)]
  · simp [decodeRouted, routedHeader, le32, hkind, hw.2.1, splitTarget_append_nul hsn]
    exact fun h => absurd h hkf

/-- `decode_frameBytes` at the message `hi` from `A` to `B`, for every constant table. -/
theorem decode_frameBytes_small :
    (routed .message ⟨[0x41], 0⟩ none none [0x42, 0, 0x68, 0x69] 2).WellShaped ∧
      ∀ W : Wire, ∃ bs,
        frameBytes W (routed .message ⟨[0x41], 0⟩ none none [0x42, 0, 0x68, 0x69] 2) = some bs ∧
          decodeRouted W bs = some (.message, [0x41], none, [0x68, 0x69]) := by
  have hw : (routed .message ⟨[0x41], 0⟩ none none [0x42, 0, 0x68, 0x69] 2).WellShaped :=
    ⟨rfl, rfl, by decide⟩
  refine ⟨hw, fun W => ?_⟩
  obtain ⟨bs, h⟩ := Option.isSome_iff_exists.1 (frameBytes_isSome W hw)
  exact ⟨bs, h, decode_frameBytes W hw (by decide) rfl (by decide) (by simp [routed]) h⟩

/-- **A sender may hold a NUL.** The handshake accepts the name `a\0b` (it is UTF-8, not
empty, and does not start with `.`), the broker builds a message from it, and the decoded
sender of what the writer writes stops at the NUL. -/
theorem decode_cuts_nul_sender :
    (∀ W : Wire, (greet W ⟨BrokerDb.default, greeting W ++ [3, 0, 0x61, 0, 0x62], [], []⟩).1 =
      .ok [0x61, 0, 0x62]) ∧
    wireOffer (BrokerDb.default.registered ⟨[0x42], 1⟩) ⟨[0x61, 0, 0x62], 0⟩ .message
        [0x42, 0, 0x68, 0x69] =
      .ok ⟨routed .message ⟨[0x61, 0, 0x62], 0⟩ none none [0x42, 0, 0x68, 0x69] 2, [⟨[0x42], 1⟩]⟩ ∧
    ∀ W : Wire, ∀ bs,
      frameBytes W (routed .message ⟨[0x61, 0, 0x62], 0⟩ none none [0x42, 0, 0x68, 0x69] 2) =
        some bs →
        decodeRouted W bs = some (.message, [0x61], none, [0x62, 0, 0x68, 0x69]) := by
  refine ⟨fun W => ?_, rfl, fun W bs h => ?_⟩
  · have hlen : u16le [3, 0] = 3 := rfl
    simp [greet, writeAndFlush, writeAll, flush, readExact, nextFault, greeting, le16,
      u16le_version, hlen, utf8Valid, utf8Run, utf8Step, utf8Lead]
  · obtain ⟨s, hs, -, rfl⟩ := frameBytes_routed (by simp [routed]) h
    cases hs
    simp [decodeRouted, routedHeader, le32, routed, routedKindOf_code W (k := .message) (by decide),
      splitTarget]

end Elbus