import Elbus.Dispatch
import Mathlib.Data.List.DropRight
import Mathlib.Data.Nat.Digits

/-!
# The FIFO command line

With the `broker-api` feature, `Broker::spawn_fifo` reads a named pipe line by line and hands
each line to `send_fifo_cmd`, which turns it into one operation of the broker's own client:

* `=topic payload`: a publication;
* `target .payload`: an RPC notification;
* `target :method var=value ...`: an RPC call, whose parameters map names to `false`,
  `true`, an `i64`, an `f64` or else the text;
* `target payload`: a broadcast when the target holds `*` or `?`, else a message.

A line is a Rust `String`, here its characters. Only the check for `=` reads the trimmed line;
the other branch splits the line as it came. Every part is the text between two spaces, so a
payload is one word, and what follows it is dropped (the parameters of a call apart).

`send_fifo_cmd` ends by running the operation; `sendFifoCmd` is the parse and returns the
operation, and `FifoCmd.clientSend` is the in-process `Client` call of a publication, broadcast
or message, which `Sys.call` runs. What that call returns (`not_registered` from `send!`) is
the call's, not the parse's; the frames and errors of the RPC layer are not among the sources.

* `sendFifoCmd_render`: a command in canonical form is read back from its line.
* `sendFifoCmd_error`: the lines that fail, each with its message: a missing payload, or a
  call parameter without `=`; the checks for a missing topic, target or parameter name never
  fail.
* `sendFifoCmd_words`: no part of an accepted line holds a space, and no parameter name or
  text holds `=`.
* `sendFifoCmd_leading_space`: a line that starts with a space is a publication or goes to
  the empty name, as a message when the broker's client sends it.
-/

namespace Elbus


/-! ### Characters -/

/-- `char::is_whitespace`: the Unicode `White_Space` property. -/
def isWhitespace (c : Char) : Bool :=
  let n := c.toNat
  (0x09 ≤ n && n ≤ 0x0D) || n == 0x20 || n == 0x85 || n == 0xA0 || n == 0x1680 ||
    (0x2000 ≤ n && n ≤ 0x200A) || n == 0x2028 || n == 0x2029 || n == 0x202F ||
    n == 0x205F || n == 0x3000

/-- `str::trim`: the text without its leading and trailing whitespace. -/
def trim (s : List Char) : List Char := (s.dropWhile isWhitespace).rdropWhile isWhitespace

/-- `str::strip_prefix(c)`: what follows a leading `c`. -/
def stripPrefix (c : Char) : List Char → Option (List Char)
  | d :: rest => if d = c then some rest else none
  | [] => none

/-- `str::as_bytes`: a string's UTF-8 bytes, each character's encoding in turn. -/
def utf8 (s : List Char) : Bytes := s.flatMap String.utf8EncodeChar

/-- Trimming keeps a first character that is not whitespace. -/
theorem trim_cons {c : Char} (hc : isWhitespace c = false) (l : List Char) :
    ∃ r, trim (c :: l) = c :: r := by
  have hd : (c :: l).dropWhile isWhitespace = c :: l := by simp [List.dropWhile, hc]
  have hp := List.rdropWhile_prefix isWhitespace (c :: l)
  rw [trim, hd]
  rcases h : (c :: l).rdropWhile isWhitespace with _ | ⟨d, r⟩
  · rw [List.rdropWhile_eq_nil_iff] at h
    simp [h c (List.mem_cons_self _ _)] at hc
  · rw [h] at hp
    obtain ⟨t, ht⟩ := hp
    simp only [List.cons_append, List.cons.injEq] at ht
    exact ⟨r, by rw [ht.1]⟩

/-- Trimming keeps a line that starts and ends with no whitespace. -/
theorem trim_eq_self {c x : Char} {l : List Char} (hc : isWhitespace c = false)
    (hx : isWhitespace x = false) : trim (c :: (l ++ [x])) = c :: (l ++ [x]) := by
  have hd : (c :: (l ++ [x])).dropWhile isWhitespace = c :: (l ++ [x]) := by
    simp [List.dropWhile, hc]
  rw [trim, hd, ← List.cons_append, List.rdropWhile_concat_neg _ _ _ (by simp [hx])]

theorem stripPrefix_eq_none {c : Char} {l : List Char} (h : l.head? ≠ some c) :
    stripPrefix c l = none := by
  cases l with
  | nil => rfl
  | cons d r => simpa [stripPrefix] using h

theorem stripPrefix_eq_some {c : Char} {l r : List Char} (h : stripPrefix c l = some r) :
    l = c :: r := by
  cases l with
  | nil => cases h
  | cons d rest =>
    simp only [stripPrefix] at h
    split at h <;> simp_all

/-! ### Splitting at a character -/

theorem splitOn_ne_nil (c : Char) (l : List Char) : l.splitOn c ≠ [] :=
  List.splitOnP_ne_nil _ _

/-- A part of a split holds no separator, and only characters of the text. -/
theorem splitOn_parts {c : Char} {l w : List Char} (hw : w ∈ l.splitOn c) :
    c ∉ w ∧ ∀ x ∈ w, x ∈ l := by
  induction l generalizing w with
  | nil => simp_all [List.splitOn]
  | cons y ys ih =>
    simp only [List.splitOn, List.splitOnP_cons] at hw ih
    split at hw
    · rcases List.mem_cons.1 hw with rfl | hw
      · simp
      · exact ⟨(ih hw).1, fun x hx => List.mem_cons_of_mem _ ((ih hw).2 x hx)⟩
    · rename_i hy
      obtain ⟨h, t, ht⟩ := List.exists_cons_of_ne_nil (List.splitOnP_ne_nil (· == c) ys)
      rw [ht] at hw ih
      rcases List.mem_cons.1 hw with rfl | hw
      · have ih' := ih (List.mem_cons_self _ _)
        refine ⟨?_, ?_⟩
        · simp only [List.mem_cons, not_or]
          exact ⟨fun h => hy (by simp [h]), ih'.1⟩
        · intro x hx
          rcases List.mem_cons.1 hx with rfl | hx
          exacts [List.mem_cons_self _ _, List.mem_cons_of_mem _ (ih'.2 x hx)]
      · have ih' := ih (List.mem_cons_of_mem _ hw)
        exact ⟨ih'.1, fun x hx => List.mem_cons_of_mem _ (ih'.2 x hx)⟩

/-- A text splits into one part exactly when it holds no separator. -/
theorem splitOn_eq_single_iff {c : Char} {l : List Char} : (∃ w, l.splitOn c = [w]) ↔ c ∉ l := by
  constructor
  · rintro ⟨w, hw⟩
    have hl : w = l := by
      simpa [hw, List.intercalate] using List.intercalate_splitOn l c
    exact hl ▸ (splitOn_parts (hw ▸ List.mem_singleton_self w)).1
  · refine fun hc => ⟨l, show l.splitOnP (· == c) = [l] from List.splitOnP_eq_single _ l ?_⟩
    exact fun x hx => by simpa using ne_of_mem_of_not_mem hx hc

theorem mem_of_splitOn_eq_cons_cons {c : Char} {l a b : List Char} {rest : List (List Char)}
    (h : l.splitOn c = a :: b :: rest) : c ∈ l := by
  by_contra hc
  obtain ⟨w, hw⟩ := splitOn_eq_single_iff.2 hc
  simp [hw] at h

/-- Parts without the separator are read back from their join. -/
theorem splitOn_join {c : Char} {ws : List (List Char)} (hw : ∀ w ∈ ws, c ∉ w) (hne : ws ≠ []) :
    ([c].intercalate ws).splitOn c = ws :=
  List.splitOn_intercalate ws c hw hne

theorem join_two (a b : List Char) : [' '].intercalate [a, b] = a ++ ' ' :: b := by
  simp [List.intercalate]

theorem join_cons (a : List Char) {l : List (List Char)} (hl : l ≠ []) :
    [' '].intercalate (a :: l) = a ++ ' ' :: [' '].intercalate l := by
  cases l with
  | nil => exact absurd rfl hl
  | cons b l => simp [List.intercalate]

/-! ### Numbers -/

/-- The value of decimal digits, read from the left as `from_str_radix` reads them. -/
def decimalValue (ds : List Char) : Nat :=
  ds.foldl (fun n c => 10 * n + (c.toNat - '0'.toNat)) 0

/-- The sign `from_str_radix` reads: whether the text is negative, and its digits. -/
def signSplit : List Char → Bool × List Char
  | '-' :: ds => (true, ds)
  | '+' :: ds => (false, ds)
  | ds => (false, ds)

/-- `<i64 as FromStr>::from_str`: an optional `+` or `-`, then at least one ASCII digit and
nothing else, with the value in range. -/
def parseI64 (s : List Char) : Option Int :=
  let ds := (signSplit s).2
  if ds ≠ [] ∧ ds.all Char.isDigit then
    let n : Int := if (signSplit s).1 then -(decimalValue ds : Int) else decimalValue ds
    if -2 ^ 63 ≤ n ∧ n < 2 ^ 63 then some n else none
  else none

/-- An optional `+` or `-` dropped. -/
def dropSign : List Char → List Char
  | '+' :: r | '-' :: r => r
  | r => r

/-- The exponent of a float literal: nothing, or `e` or `E`, an optional sign and at least
one digit. -/
def isExponent : List Char → Bool
  | [] => true
  | c :: r => (c == 'e' || c == 'E') && (dropSign r != [] && (dropSign r).all Char.isDigit)

/-- A decimal float literal without its sign: digits with at most one `.`, at least one
digit in all, then an optional exponent. -/
def isDecimal (s : List Char) : Bool :=
  match s.dropWhile Char.isDigit with
  | '.' :: r =>
    (s.takeWhile Char.isDigit != [] || r.takeWhile Char.isDigit != []) &&
      isExponent (r.dropWhile Char.isDigit)
  | r => s.takeWhile Char.isDigit != [] && isExponent r

/-- `<f64 as FromStr>::from_str` accepts the text: an optional sign, then `inf`, `infinity`
or `nan` in any case, or a decimal literal (the grammar the standard library documents). -/
def parsesF64 (s : List Char) : Bool :=
  let lower := (dropSign s).map Char.toLower
  lower == "inf".toList || lower == "infinity".toList || lower == "nan".toList ||
    isDecimal (dropSign s)

theorem signSplit_digit {c : Char} (hc : c.isDigit) (r : List Char) :
    signSplit (c :: r) = (false, c :: r) := by
  unfold signSplit
  split <;> simp_all

/-- Unsigned digits are an `i64` exactly below `2 ^ 63`. -/
theorem parseI64_digits {ds : List Char} (hne : ds ≠ []) (hd : ∀ c ∈ ds, c.isDigit) :
    parseI64 ds = if decimalValue ds < 2 ^ 63 then some (decimalValue ds : Int) else none := by
  obtain ⟨c, r, rfl⟩ := List.exists_cons_of_ne_nil hne
  rw [parseI64, signSplit_digit (hd c (List.mem_cons_self _ _)) r]
  simp only [if_pos (And.intro hne (List.all_eq_true.2 hd)), Bool.false_eq_true, if_false]
  split_ifs <;> first | rfl | omega

/-- Digits after `-` are an `i64` exactly down to `-2 ^ 63`. -/
theorem parseI64_neg_digits {ds : List Char} (hne : ds ≠ []) (hd : ∀ c ∈ ds, c.isDigit) :
    parseI64 ('-' :: ds) =
      if decimalValue ds ≤ 2 ^ 63 then some (-(decimalValue ds : Int)) else none := by
  simp only [parseI64, signSplit, if_pos (And.intro hne (List.all_eq_true.2 hd)), if_true]
  split_ifs <;> first | rfl | omega

/-! ### Parameters -/

/-- A parameter's `serde_json::Value`: from `false` or `true`, from an `i64`, from the `f64`
the literal denotes (`null` when that is not finite), or from the text itself. -/
inductive FifoValue where
  | bool (b : Bool)
  | int (n : Int)
  | float (literal : List Char)
  | str (text : List Char)
deriving DecidableEq, Repr

/-- The chain of `if`s that gives a parameter its value. -/
def parseValue (v : List Char) : FifoValue :=
  if v = "false".toList then .bool false
  else if v = "true".toList then .bool true
  else
    match parseI64 v with
    | some n => .int n
    | none => if parsesF64 v then .float v else .str v

/-- The parameters of a call, a `HashMap<&str, Value>`, as its entries. -/
abbrev Params := List (List Char × FifoValue)

/-- `HashMap::insert`: a name already there gets the new value, a new name is added. -/
def Params.insert (ps : Params) (k : List Char) (v : FifoValue) : Params :=
  if ps.any (·.1 == k) then ps.map fun e => if e.1 = k then (k, v) else e else ps ++ [(k, v)]

theorem Params.insert_new {ps : Params} {k : List Char} (h : k ∉ ps.map (·.1)) (v : FifoValue) :
    ps.insert k v = ps ++ [(k, v)] := by
  rw [Params.insert, if_neg]
  simp only [List.any_eq_true, beq_iff_eq, not_exists, not_and]
  exact fun e he hk => h (List.mem_map.2 ⟨e, he, hk⟩)

/-- An entry of `ps.insert k v` is an entry of `ps` or the new one, and names stay distinct. -/
theorem Params.insert_spec (ps : Params) (k : List Char) (v : FifoValue)
    (hn : (ps.map (·.1)).Nodup) :
    (∀ e ∈ ps.insert k v, e ∈ ps ∨ e = (k, v)) ∧ ((ps.insert k v).map (·.1)).Nodup := by
  unfold Params.insert
  split
  · have hkeys : (ps.map fun e => if e.1 = k then (k, v) else e).map (·.1) = ps.map (·.1) := by
      simp only [List.map_map]
      refine List.map_congr_left fun e _ => ?_
      simp only [Function.comp_apply]
      split
      exacts [(‹e.1 = k›).symm, rfl]
    refine ⟨fun e he => ?_, hkeys ▸ hn⟩
    obtain ⟨e', he', rfl⟩ := List.mem_map.1 he
    split
    exacts [.inr rfl, .inl he']
  · rename_i hk
    refine ⟨fun e he => by simpa using he, ?_⟩
    rw [List.map_append, List.nodup_append]
    simp only [List.any_eq_true, beq_iff_eq, not_exists, not_and] at hk
    refine ⟨hn, List.nodup_singleton _, ?_⟩
    simp only [List.map_cons, List.map_nil, List.disjoint_singleton, List.mem_map, not_exists,
      not_and]
    exact hk

/-! ### The command -/

/-- The checks of `send_fifo_cmd`; each fails with `Error::data` and the message quoted. -/
inductive FifoError where
  /-- The message "topic not specified". -/
  | topicNotSpecified
  /-- The message "payload not specified". -/
  | payloadNotSpecified
  /-- The message "target not specified". -/
  | targetNotSpecified
  /-- The message "var name not specified". -/
  | varNameNotSpecified
  /-- The message "var value not specified". -/
  | varValueNotSpecified
deriving DecidableEq, Repr

/-- The operation `send_fifo_cmd` runs for a line, each with `QoS::No`. -/
inductive FifoCmd where
  /-- `client.publish(topic, payload)` -/
  | publish (topic payload : List Char)
  /-- `rpc.notify(target, payload)` -/
  | notify (target payload : List Char)
  /-- `rpc.call0(target, method, params)`; serialising the map cannot fail -/
  | call (target method : List Char) (params : Params)
  /-- `client.send_broadcast(target, payload)` -/
  | sendBroadcast (target payload : List Char)
  /-- `client.send(target, payload)` -/
  | send (target payload : List Char)
deriving DecidableEq, Repr

/-- The loop over the parts that follow a call's method: an empty part is skipped, any other
is split at `=` into a name and a value. -/
def parseParams (params : Params) : List (List Char) → Except FifoError Params
  | [] => .ok params
  | pair :: sp =>
    if pair.isEmpty then parseParams params sp
    else
      match pair.splitOn '=' with
      | [] => .error .varNameNotSpecified
      | [_] => .error .varValueNotSpecified
      | var :: v :: _ => parseParams (params.insert var (parseValue v)) sp

/-- `send_fifo_cmd`: the operation a line asks for. -/
def sendFifoCmd (line : List Char) : Except FifoError FifoCmd :=
  match stripPrefix '=' (trim line) with
  | some s =>
    match s.splitOn ' ' with
    | [] => .error .topicNotSpecified
    | [_] => .error .payloadNotSpecified
    | topic :: payload :: _ => .ok (.publish topic payload)
  | none =>
    match line.splitOn ' ' with
    | [] => .error .targetNotSpecified
    | [_] => .error .payloadNotSpecified
    | target :: payload :: sp =>
      match stripPrefix '.' payload with
      | some s => .ok (.notify target s)
      | none =>
        match stripPrefix ':' payload with
        | some method => (parseParams [] sp).map (.call target method)
        | none =>
          if target.any (fun c => c == '*' || c == '?') then .ok (.sendBroadcast target payload)
          else .ok (.send target payload)

/-- The in-process `Client` call of a publication, broadcast or message: the broker's own
client passes the strings' bytes. A notification or call goes to the RPC layer. -/
def FifoCmd.clientSend : FifoCmd → Option ClientSend
  | .publish topic payload => some (.publish (utf8 topic) (utf8 payload))
  | .sendBroadcast target payload => some (.sendBroadcast (utf8 target) (utf8 payload))
  | .send target payload => some (.send (utf8 target) (utf8 payload))
  | .notify .. | .call .. => none

/-- The client name a command addresses; a publication addresses a topic instead. -/
def FifoCmd.addressee : FifoCmd → Option (List Char)
  | .publish .. => none
  | .notify target _ | .call target .. | .sendBroadcast target _ | .send target _ => some target

/-! ### Errors -/

/-- The loop over parameters fails exactly on a non-empty part without `=`, with "var value
not specified". -/
theorem parseParams_error_iff {ps : Params} {sp : List (List Char)} {e : FifoError} :
    parseParams ps sp = .error e ↔ e = .varValueNotSpecified ∧ ∃ p ∈ sp, p ≠ [] ∧ '=' ∉ p := by
  induction sp generalizing ps with
  | nil => simp [parseParams]
  | cons pair sp ih =>
    rw [parseParams]
    split
    · rename_i he
      simp [List.isEmpty_iff.1 he, ih]
    · rename_i he
      have hne : pair ≠ [] := fun h => by simp [h] at he
      rcases hs : pair.splitOn '=' with _ | ⟨w, _ | ⟨v, rest⟩⟩
      · exact absurd hs (splitOn_ne_nil '=' pair)
      · have hp : '=' ∉ pair := splitOn_eq_single_iff.1 ⟨w, hs⟩
        simp only [Except.error.injEq, @eq_comm _ FifoError.varValueNotSpecified]
        exact ⟨fun h => ⟨h, pair, List.mem_cons_self _ _, hne, hp⟩, And.left⟩
      · simp [ih, mem_of_splitOn_eq_cons_cons hs]

theorem except_map_eq_error {α β : Type} (f : α → β) (x : Except FifoError α) (e : FifoError) :
    x.map f = .error e ↔ x = .error e := by
  cases x <;> simp [Except.map]

/-- **When a line is refused.** The parse fails in two ways only: "payload not specified" when
the text it splits at spaces (the trimmed line after `=` for a publication, else the line as it
came) holds no space, and "var value not specified" when a call has a non-empty parameter part
without `=`. The checks for a missing topic, target or parameter name never fire, since
`str::split` yields a first part even for the empty text. -/
theorem sendFifoCmd_error (line : List Char) (e : FifoError) :
    sendFifoCmd line = .error e ↔
      (e = .payloadNotSpecified ∧ ' ' ∉ (stripPrefix '=' (trim line)).getD line) ∨
      (e = .varValueNotSpecified ∧ stripPrefix '=' (trim line) = none ∧
        ∃ target method sp, line.splitOn ' ' = target :: (':' :: method) :: sp ∧
          ∃ p ∈ sp, p ≠ [] ∧ '=' ∉ p) := by
  unfold sendFifoCmd
  cases stripPrefix '=' (trim line) with
  | some s =>
    dsimp only
    rcases hsp : s.splitOn ' ' with _ | ⟨w, _ | ⟨p, rest⟩⟩
    · exact absurd hsp (splitOn_ne_nil ' ' s)
    · simp [splitOn_eq_single_iff.1 ⟨w, hsp⟩, eq_comm]
    · simp [mem_of_splitOn_eq_cons_cons hsp]
  | none =>
    dsimp only
    rcases hsp : line.splitOn ' ' with _ | ⟨target, _ | ⟨payload, sp⟩⟩
    · exact absurd hsp (splitOn_ne_nil ' ' line)
    · simp [splitOn_eq_single_iff.1 ⟨target, hsp⟩, eq_comm]
    · simp only [Option.getD_none, mem_of_splitOn_eq_cons_cons hsp, not_true_eq_false,
        and_false, false_or, true_and, List.cons.injEq, and_assoc, exists_and_left,
        exists_eq_left']
      cases hd : stripPrefix '.' payload with
      | some n => simp [stripPrefix_eq_some hd]
      | none =>
        cases hc : stripPrefix ':' payload with
        | some method =>
          simp only [stripPrefix_eq_some hc, List.cons.injEq, true_and, exists_eq_left',
            except_map_eq_error, parseParams_error_iff]
        | none =>
          have hm : ∀ m, payload ≠ ':' :: m := fun m h => by simp [h, stripPrefix] at hc
          simp only [hm, false_and, exists_false, and_false, iff_false]
          split <;> simp

/-! ### The texts of values -/

/-- The digit character of `d < 10`. -/
def digitChar (d : Nat) : Char := Char.ofNat (48 + d)

/-- The decimal text of a natural number. -/
def natText (n : Nat) : List Char :=
  if n = 0 then ['0'] else ((Nat.digits 10 n).map digitChar).reverse

/-- The decimal text of an integer, a negative one after `-`. -/
def intText (n : Int) : List Char := if n < 0 then '-' :: natText n.natAbs else natText n.natAbs

/-- The text of a value. -/
def FifoValue.text : FifoValue → List Char
  | .bool b => if b then "true".toList else "false".toList
  | .int n => intText n
  | .float literal => literal
  | .str text => text

theorem digitChar_spec : ∀ d, d < 10 → (digitChar d).toNat = 48 + d ∧ (digitChar d).isDigit := by
  decide

theorem decimalValue_digits {ds : List Nat} (h : ∀ d ∈ ds, d < 10) :
    decimalValue (ds.map digitChar).reverse = Nat.ofDigits 10 ds := by
  have h0 : '0'.toNat = 48 := rfl
  rw [decimalValue, List.foldl_reverse, h0]
  induction ds with
  | nil => rfl
  | cons d ds ih =>
    simp only [List.map_cons, List.foldr_cons, Nat.ofDigits_cons,
      (digitChar_spec d (h d (List.mem_cons_self _ _))).1,
      ih fun x hx => h x (List.mem_cons_of_mem _ hx)]
    omega

theorem natText_spec (k : Nat) :
    natText k ≠ [] ∧ (∀ c ∈ natText k, c.isDigit) ∧ decimalValue (natText k) = k := by
  unfold natText
  split
  · subst_vars
    exact ⟨List.cons_ne_nil _ _, by decide, rfl⟩
  · rename_i hk
    have hd : ∀ d ∈ Nat.digits 10 k, d < 10 := fun d => Nat.digits_lt_base (by norm_num)
    refine ⟨by simpa using Nat.digits_ne_nil_iff_ne_zero.2 hk, fun c hc => ?_, ?_⟩
    · obtain ⟨d, hd', rfl⟩ := List.mem_map.1 (List.mem_reverse.1 hc)
      exact (digitChar_spec d (hd d hd')).2
    · rw [decimalValue_digits hd, Nat.ofDigits_digits]

theorem not_mem_natText {c : Char} (hc : c.isDigit = false) (k : Nat) : c ∉ natText k :=
  fun h => by simp [(natText_spec k).2.1 c h] at hc

theorem intText_words (n : Int) : ' ' ∉ intText n ∧ '=' ∉ intText n := by
  have h1 := not_mem_natText (c := ' ') rfl n.natAbs
  have h2 := not_mem_natText (c := '=') rfl n.natAbs
  unfold intText
  split <;> simp [h1, h2]

theorem parseI64_intText {n : Int} (h : -2 ^ 63 ≤ n ∧ n < 2 ^ 63) :
    parseI64 (intText n) = some n := by
  obtain ⟨hne, hd, hv⟩ := natText_spec n.natAbs
  unfold intText
  split
  · rw [parseI64_neg_digits hne hd, hv, if_pos (by omega)]
    congr 1
    omega
  · rw [parseI64_digits hne hd, hv, if_pos (by omega)]
    congr 1
    omega

/-- A value read from a part without a space or `=` has a text without them. -/
theorem parseValue_text_words {v : List Char} (h : ' ' ∉ v ∧ '=' ∉ v) :
    ' ' ∉ (parseValue v).text ∧ '=' ∉ (parseValue v).text := by
  unfold parseValue
  split_ifs <;> first | decide | (split <;> first | exact intText_words _ | exact h)

/-! ### What an accepted line carries -/

/-- What every accepted line carries: no part holds a space, and a call's parameters are named
once each, with no `=` in a name or in a value's text. -/
def FifoCmd.Words : FifoCmd → Prop
  | .publish t p | .notify t p | .sendBroadcast t p | .send t p => ' ' ∉ t ∧ ' ' ∉ p
  | .call target method params =>
    ' ' ∉ target ∧ ' ' ∉ method ∧ (params.map (·.1)).Nodup ∧
      ∀ e ∈ params, (' ' ∉ e.1 ∧ '=' ∉ e.1) ∧ ' ' ∉ e.2.text ∧ '=' ∉ e.2.text

/-- What the loop keeps of a parameter. -/
def ParamWords (e : List Char × FifoValue) : Prop :=
  (' ' ∉ e.1 ∧ '=' ∉ e.1) ∧ ' ' ∉ e.2.text ∧ '=' ∉ e.2.text

/-- The loop over parameters keeps names distinct, and takes names and values from parts
without a space. -/
theorem parseParams_words {acc ps : Params} {sp : List (List Char)}
    (h : parseParams acc sp = .ok ps) (hsp : ∀ w ∈ sp, ' ' ∉ w)
    (hacc : (acc.map (·.1)).Nodup ∧ ∀ e ∈ acc, ParamWords e) :
    (ps.map (·.1)).Nodup ∧ ∀ e ∈ ps, ParamWords e := by
  induction sp generalizing acc with
  | nil => cases h; exact hacc
  | cons pair sp ih =>
    have hsp' : ∀ w ∈ sp, ' ' ∉ w := fun w hw => hsp w (List.mem_cons_of_mem _ hw)
    simp only [parseParams] at h
    split at h
    · exact ih h hsp' hacc
    · split at h
      · cases h
      · cases h
      · rename_i var v rest hsplit
        have hp := hsp pair (List.mem_cons_self _ _)
        have hvar := splitOn_parts (hsplit ▸ List.mem_cons_self var _)
        have hv := splitOn_parts (hsplit ▸ List.mem_cons_of_mem _ (List.mem_cons_self v rest))
        obtain ⟨hmem, hnd⟩ := Params.insert_spec acc var (parseValue v) hacc.1
        refine ih h hsp' ⟨hnd, fun e he => ?_⟩
        rcases hmem e he with he | rfl
        · exact hacc.2 e he
        · exact ⟨⟨fun h' => hp (hvar.2 _ h'), hvar.1⟩,
            parseValue_text_words ⟨fun h' => hp (hv.2 _ h'), hv.1⟩⟩

/-- **What the FIFO accepts.** For every line `send_fifo_cmd` accepts: no topic, target, payload
or method holds a space, so a payload is one word; and a call's parameters are named once each,
with neither a space nor `=` in a name or in a value's text. -/
theorem sendFifoCmd_words {line : List Char} {c : FifoCmd} (h : sendFifoCmd line = .ok c) :
    c.Words := by
  unfold sendFifoCmd at h
  split at h
  · split at h
    · cases h
    · cases h
    · rename_i topic payload rest hsp
      cases h
      exact ⟨(splitOn_parts (hsp ▸ List.mem_cons_self _ _)).1,
        (splitOn_parts (hsp ▸ List.mem_cons_of_mem _ (List.mem_cons_self _ _))).1⟩
  · split at h
    · cases h
    · cases h
    · rename_i target payload sp hsp
      have ht := (splitOn_parts (hsp ▸ List.mem_cons_self _ _)).1
      have hp := (splitOn_parts (hsp ▸ List.mem_cons_of_mem _ (List.mem_cons_self _ _))).1
      have hrest : ∀ w ∈ sp, ' ' ∉ w := fun w hw =>
        (splitOn_parts (hsp ▸ List.mem_cons_of_mem _ (List.mem_cons_of_mem _ hw))).1
      split at h
      · rename_i s hs
        cases h
        rw [stripPrefix_eq_some hs] at hp
        exact ⟨ht, fun h' => hp (List.mem_cons_of_mem _ h')⟩
      · split at h
        · rename_i m hm
          rw [stripPrefix_eq_some hm] at hp
          rcases hps : parseParams [] sp with e | ps <;> rw [hps] at h <;> cases h
          obtain ⟨hnd, hw⟩ := parseParams_words hps hrest ⟨List.nodup_nil, nofun⟩
          exact ⟨ht, fun h' => hp (List.mem_cons_of_mem _ h'), hnd, hw⟩
        · split at h <;> cases h <;> exact ⟨ht, hp⟩

/-- A publication keeps the first word after its topic and drops the rest. -/
theorem sendFifoCmd_words_publish :
    sendFifoCmd "=t a b".toList = .ok (.publish ['t'] ['a']) ∧
      (FifoCmd.publish ['t'] ['a']).Words :=
  ⟨rfl, @sendFifoCmd_words "=t a b".toList _ rfl⟩

/-- **A leading space sends to the empty name.** Only the check for `=` reads the trimmed line;
the other branch splits the line as it came. So a line that starts with a space is a
publication, or it is addressed to the empty name (its first word becomes the payload); the
empty name holds no `*` or `?`, so the broker's client sends it as a message. -/
theorem sendFifoCmd_leading_space {rest : List Char} {c : FifoCmd}
    (h : sendFifoCmd (' ' :: rest) = .ok c) :
    c.addressee = none ∨
      c.addressee = some [] ∧ ∀ cs, c.clientSend = some cs → ∃ p, cs = .send [] p := by
  have hsplit : (' ' :: rest).splitOn ' ' = [] :: rest.splitOn ' ' := by
    simp [List.splitOn, List.splitOnP_cons]
  unfold sendFifoCmd at h
  split at h
  · split at h <;> cases h
    exact .inl rfl
  · rw [hsplit] at h
    split at h
    · cases h
    · cases h
    · rename_i var v sp heq
      obtain rfl := (List.cons.inj heq).1.symm
      right
      split at h
      · cases h
        exact ⟨rfl, fun _ hcs => by cases hcs⟩
      · split at h
        · rcases hp : parseParams [] sp with e | ps <;> rw [hp] at h <;> cases h
          exact ⟨rfl, fun _ hcs => by cases hcs⟩
        · split at h
          · rename_i hw
            cases hw
          · cases h
            exact ⟨rfl, fun _ hcs => ⟨_, (Option.some.inj hcs).symm⟩⟩

/-! ### Lines in canonical form -/

/-- A value its text stands for: an `i64` in range, a float literal that is not an integer, or
a text that is none of the others; no text holds a space or `=`. -/
def FifoValue.canonical : FifoValue → Bool
  | .bool _ => true
  | .int n => decide (-2 ^ 63 ≤ n ∧ n < 2 ^ 63)
  | .float literal =>
    parsesF64 literal && parseI64 literal == none && decide (' ' ∉ literal ∧ '=' ∉ literal)
  | .str text =>
    decide (text ≠ "false".toList ∧ text ≠ "true".toList) && parseI64 text == none &&
      !parsesF64 text && decide (' ' ∉ text ∧ '=' ∉ text)

/-- The text of one parameter, `var=value`. -/
def paramText (e : List Char × FifoValue) : List Char := ['='].intercalate [e.1, e.2.text]

/-- The line of a command: its parts joined by single spaces. -/
def FifoCmd.render : FifoCmd → List Char
  | .publish topic payload => '=' :: [' '].intercalate [topic, payload]
  | .notify target payload => [' '].intercalate [target, '.' :: payload]
  | .call target method params =>
    [' '].intercalate (target :: (':' :: method) :: params.map paramText)
  | .sendBroadcast target payload => [' '].intercalate [target, payload]
  | .send target payload => [' '].intercalate [target, payload]

/-- A target the line keeps as written: not empty, without a space, and starting with neither
whitespace nor `=`, so that the trimmed line does not start with `=`. -/
def plainTarget : List Char → Bool
  | [] => false
  | c :: r => !isWhitespace c && c != '=' && decide (' ' ∉ c :: r)

/-- Whether a target holds `*` or `?`. -/
def hasWildcard (target : List Char) : Bool := target.any fun c => c == '*' || c == '?'

/-- A command its line reads back as: every part without a space, a publication's payload not
empty and not ending in whitespace, a message's payload starting with neither `.` nor `:`,
and a call's parameters named once each, without `=` in a name, each value canonical. -/
def FifoCmd.canonical : FifoCmd → Bool
  | .publish topic payload =>
    decide (' ' ∉ topic ∧ ' ' ∉ payload) && payload.getLast?.any (!isWhitespace ·)
  | .notify target payload => plainTarget target && decide (' ' ∉ payload)
  | .call target method params =>
    plainTarget target && decide (' ' ∉ method ∧ (params.map (·.1)).Nodup) &&
      params.all fun e => decide (' ' ∉ e.1 ∧ '=' ∉ e.1) && e.2.canonical
  | .sendBroadcast target payload =>
    plainTarget target && hasWildcard target && decide (' ' ∉ payload) &&
      payload.head? != some '.' && payload.head? != some ':'
  | .send target payload =>
    plainTarget target && !hasWildcard target && decide (' ' ∉ payload) &&
      payload.head? != some '.' && payload.head? != some ':'

theorem FifoValue.text_words {v : FifoValue} (h : v.canonical = true) :
    ' ' ∉ v.text ∧ '=' ∉ v.text := by
  cases v with
  | bool b => cases b <;> decide
  | int n => exact intText_words n
  | float lit => simp_all [FifoValue.canonical, FifoValue.text]
  | str s => simp_all [FifoValue.canonical, FifoValue.text]

/-- A value is read back from its text. -/
theorem parseValue_text {v : FifoValue} (h : v.canonical = true) : parseValue v.text = v := by
  cases v with
  | bool b => cases b <;> rfl
  | int n =>
    have hn : -2 ^ 63 ≤ n ∧ n < 2 ^ 63 := by simpa [FifoValue.canonical] using h
    obtain ⟨c, r, hcr⟩ := List.exists_cons_of_ne_nil (natText_spec n.natAbs).1
    have hc := (natText_spec n.natAbs).2.1 c (hcr ▸ List.mem_cons_self _ _)
    have hf : intText n ≠ "false".toList ∧ intText n ≠ "true".toList := by
      unfold intText
      split <;> rw [hcr] <;> constructor <;> rintro ⟨⟩ <;> simp_all
    rw [FifoValue.text, parseValue, if_neg hf.1, if_neg hf.2, parseI64_intText hn]
  | float lit =>
    simp only [FifoValue.canonical, Bool.and_eq_true, beq_iff_eq] at h
    have hf : lit ≠ "false".toList ∧ lit ≠ "true".toList := by
      constructor <;> rintro rfl <;> exact absurd h.1.1 (by decide)
    rw [FifoValue.text, parseValue, if_neg hf.1, if_neg hf.2, h.1.2]
    simp [h.1.1]
  | str s =>
    simp only [FifoValue.canonical, Bool.and_eq_true, decide_eq_true_eq, beq_iff_eq,
      Bool.not_eq_true'] at h
    rw [FifoValue.text, parseValue, if_neg h.1.1.1.1, if_neg h.1.1.1.2, h.1.1.2]
    simp [h.1.2]

/-- The loop reads canonical parameters back, each name new, in order. -/
theorem parseParams_render (ps : Params) {acc : Params}
    (hc : ∀ e ∈ ps, (' ' ∉ e.1 ∧ '=' ∉ e.1) ∧ e.2.canonical = true)
    (hn : (ps.map (·.1)).Nodup) (hd : ∀ e ∈ ps, e.1 ∉ acc.map (·.1)) :
    parseParams acc (ps.map paramText) = .ok (acc ++ ps) := by
  induction ps generalizing acc with
  | nil => simp [parseParams]
  | cons e ps ih =>
    obtain ⟨⟨-, hk⟩, hv⟩ := hc e (List.mem_cons_self _ _)
    have hsplit : (paramText e).splitOn '=' = [e.1, e.2.text] := by
      refine splitOn_join ?_ (List.cons_ne_nil _ _)
      simpa [hk] using (FifoValue.text_words hv).2
    have hne : (paramText e).isEmpty = false := by simp [paramText, List.intercalate]
    rw [List.map_cons, List.nodup_cons] at hn
    simp only [List.map_cons, parseParams, hne, Bool.false_eq_true, if_false, hsplit]
    rw [parseValue_text hv, Params.insert_new (hd e (List.mem_cons_self _ _)),
      ih (fun e' he' => hc e' (List.mem_cons_of_mem _ he')) hn.2, List.append_assoc]
    · rfl
    · intro e' he'
      simp only [List.map_append, List.map_cons, List.map_nil, List.mem_append, List.mem_singleton,
        not_or]
      exact ⟨hd e' (List.mem_cons_of_mem _ he'),
        fun h => hn.1 (h ▸ List.mem_map_of_mem _ he')⟩

theorem plainTarget_words {t : List Char} (h : plainTarget t = true) : ' ' ∉ t := by
  cases t with
  | nil => cases h
  | cons c r => simp_all [plainTarget]

/-- A line that starts with a plain target does not start with `=` once trimmed. -/
theorem stripPrefix_trim_plain {t : List Char} (ht : plainTarget t = true) {l : List (List Char)}
    (hl : l ≠ []) : stripPrefix '=' (trim ([' '].intercalate (t :: l))) = none := by
  rw [join_cons t hl]
  cases t with
  | nil => cases ht
  | cons c r =>
    simp only [plainTarget, Bool.and_eq_true, Bool.not_eq_true', bne_iff_ne] at ht
    obtain ⟨r', hr'⟩ := trim_cons ht.1.1 (r ++ ' ' :: [' '].intercalate l)
    rw [List.cons_append, hr']
    simp [stripPrefix, ht.1.2]

/-- **The FIFO's lines read back.** A command in canonical form, written as its line, is the
command `send_fifo_cmd` runs for that line. -/
theorem sendFifoCmd_render (c : FifoCmd) (h : c.canonical = true) :
    sendFifoCmd c.render = .ok c := by
  cases c with
  | publish topic payload =>
    simp only [FifoCmd.canonical, Bool.and_eq_true, decide_eq_true_eq] at h
    obtain ⟨⟨ht, hp⟩, hl⟩ := h
    rcases hx : payload.getLast? with _ | x <;> rw [hx] at hl
    · cases hl
    have hxw : isWhitespace x = false := by simpa using hl
    obtain ⟨p', rfl⟩ : ∃ p', payload = p' ++ [x] :=
      ⟨payload.dropLast, (List.dropLast_append_getLast? x hx).symm⟩
    have htrim : trim (FifoCmd.publish topic (p' ++ [x])).render =
        (FifoCmd.publish topic (p' ++ [x])).render := by
      rw [FifoCmd.render, join_two,
        show topic ++ ' ' :: (p' ++ [x]) = (topic ++ ' ' :: p') ++ [x] by simp]
      exact trim_eq_self (c := '=') rfl hxw
    rw [sendFifoCmd, htrim, FifoCmd.render]
    simp only [stripPrefix, if_true]
    rw [splitOn_join (by simp [ht, hp]) (List.cons_ne_nil _ _)]
  | notify target payload =>
    simp only [FifoCmd.canonical, Bool.and_eq_true, decide_eq_true_eq] at h
    rw [sendFifoCmd, FifoCmd.render, stripPrefix_trim_plain h.1 (List.cons_ne_nil _ _),
      splitOn_join (by simp [plainTarget_words h.1, h.2]) (List.cons_ne_nil _ _)]
    simp [stripPrefix]
  | call target method params =>
    simp only [FifoCmd.canonical, Bool.and_eq_true, decide_eq_true_eq, List.all_eq_true] at h
    obtain ⟨⟨ht, hm, hn⟩, hps⟩ := h
    have hw : ∀ w ∈ target :: (':' :: method) :: params.map paramText, ' ' ∉ w := by
      simp only [List.mem_cons, List.mem_map]
      rintro w (rfl | rfl | ⟨e, he, rfl⟩)
      · exact plainTarget_words ht
      · simpa using hm
      · have := FifoValue.text_words (hps e he).2
        simpa [paramText, List.intercalate, (hps e he).1.1] using this.1
    rw [sendFifoCmd, FifoCmd.render, stripPrefix_trim_plain ht (List.cons_ne_nil _ _),
      splitOn_join hw (List.cons_ne_nil _ _)]
    simp only [stripPrefix, if_true, Char.reduceEq, if_false]
    rw [parseParams_render params (fun e he => hps e he) hn (by simp)]
    rfl
  | sendBroadcast target payload =>
    simp only [FifoCmd.canonical, Bool.and_eq_true, decide_eq_true_eq, bne_iff_ne] at h
    obtain ⟨⟨⟨⟨ht, hwild⟩, hp⟩, hdot⟩, hcolon⟩ := h
    rw [sendFifoCmd, FifoCmd.render, stripPrefix_trim_plain ht (List.cons_ne_nil _ _),
      splitOn_join (by simp [plainTarget_words ht, hp]) (List.cons_ne_nil _ _)]
    simp only [stripPrefix_eq_none hdot, stripPrefix_eq_none hcolon]
    rw [← hasWildcard, hwild, if_pos rfl]
  | send target payload =>
    simp only [FifoCmd.canonical, Bool.and_eq_true, decide_eq_true_eq, bne_iff_ne,
      Bool.not_eq_true'] at h
    obtain ⟨⟨⟨⟨ht, hwild⟩, hp⟩, hdot⟩, hcolon⟩ := h
    rw [sendFifoCmd, FifoCmd.render, stripPrefix_trim_plain ht (List.cons_ne_nil _ _),
      splitOn_join (by simp [plainTarget_words ht, hp]) (List.cons_ne_nil _ _)]
    simp only [stripPrefix_eq_none hdot, stripPrefix_eq_none hcolon]
    rw [← hasWildcard, hwild]
    rfl

/-- A call with one parameter of each kind. -/
theorem sendFifoCmd_render_call :
    (FifoCmd.call "svc".toList "get".toList
      [("on".toList, .bool true), ("n".toList, .int (-12)), ("x".toList, .float "0.5".toList),
        ("s".toList, .str "abc".toList)]).canonical = true ∧
    sendFifoCmd (FifoCmd.call "svc".toList "get".toList
      [("on".toList, .bool true), ("n".toList, .int (-12)), ("x".toList, .float "0.5".toList),
        ("s".toList, .str "abc".toList)]).render =
      .ok (FifoCmd.call "svc".toList "get".toList
        [("on".toList, .bool true), ("n".toList, .int (-12)), ("x".toList, .float "0.5".toList),
          ("s".toList, .str "abc".toList)]) :=
  ⟨by decide, sendFifoCmd_render _ (by decide)⟩

end Elbus
