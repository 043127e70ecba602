import KvStore.Framing
import KvStore.Serializer

/-!
# Commands survive the wire

`Command.Valid` says which commands a client may send and `Command.parts` what it writes for one: the name in
any mixture of cases, the fields as they are, the seconds in decimal. `Command.Valid.isCommand` places this in
the grammar; from there the parser's completeness gives the command back, whatever bytes follow
(`command_round_trip`). Conversely only valid commands come out of the parser (`valid_of_parseCommand`).
-/

namespace KvStore
open ByteString Decimal

/-- The name a request for this type carries, in upper case. -/
def CommandType.name : CommandType → String
  | .kPing => "PING"
  | .kSet => "SET"
  | .kGet => "GET"
  | .kDel => "DEL"
  | .kExists => "EXISTS"
  | .kExpire => "EXPIRE"
  | .kTtl => "TTL"

namespace Command

/-- The fields are within their limits, and the ones the command does not use have their defaults. -/
structure Valid (c : Command) : Prop where
  key_le : c.key.length ≤ 512
  key_unused : c.type = .kPing → c.key = []
  value_le : c.value.length ≤ 1048576
  value_unused : c.type ≠ .kSet → c.value = []
  seconds_nonneg : 0 ≤ c.seconds
  seconds_le : c.seconds ≤ 2 ^ 63 - 1
  seconds_unused : c.type ≠ .kExpire → c.seconds = 0

/-- The arguments behind the name. -/
def params (c : Command) : List Bytes :=
  match c.type with
  | .kPing => []
  | .kSet => [c.key, c.value]
  | .kExpire => [c.key, decimalText c.seconds]
  | .kGet | .kDel | .kExists | .kTtl => [c.key]

/-- What a client hands to `encode_command`, with its spelling of the name. -/
def parts (c : Command) (name : Bytes) : List Bytes := name :: c.params

end Command

section
variable {c : Command} {name : Bytes}

theorem Command.Valid.isCommand (h : c.Valid) (hname : Spells name c.type.name) :
    IsCommand (c.parts name) c := by
  obtain ⟨type, key, value, seconds⟩ := c
  obtain ⟨hkey, hkey₀, hvalue, hvalue₀, hpos, hmax, hseconds₀⟩ := h
  dsimp only at hkey hkey₀ hvalue hvalue₀ hpos hmax hseconds₀
  have hunused : type ≠ .kSet → type ≠ .kExpire → value = [] ∧ seconds = 0 := fun hset hexpire =>
    ⟨hvalue₀ hset, hseconds₀ hexpire⟩
  cases type with
  | kPing =>
    obtain ⟨rfl, rfl⟩ := hunused nofun nofun
    obtain rfl := hkey₀ rfl
    exact .ping hname
  | kSet =>
    obtain rfl := hseconds₀ nofun
    exact .set hname hkey hvalue
  | kExpire =>
    obtain rfl := hvalue₀ nofun
    obtain ⟨s, rfl⟩ := Int.eq_ofNat_of_zero_le hpos
    exact .expire hname hkey (isNumeral_ofNat s) (by omega)
  | kGet =>
    obtain ⟨rfl, rfl⟩ := hunused nofun nofun
    exact .get hname hkey
  | kDel =>
    obtain ⟨rfl, rfl⟩ := hunused nofun nofun
    exact .del hname hkey
  | kExists =>
    obtain ⟨rfl, rfl⟩ := hunused nofun nofun
    exact .exists hname hkey
  | kTtl =>
    obtain ⟨rfl, rfl⟩ := hunused nofun nofun
    exact .ttl hname hkey

theorem Command.valid_key {type : CommandType} {key : Bytes} (hkey : key.length ≤ 512)
    (hping : type = .kPing → key = []) : Command.Valid { type, key } :=
  ⟨hkey, hping, by simp, fun _ => rfl, le_rfl, by norm_num, fun _ => rfl⟩

theorem IsCommand.valid {args : List Bytes} (h : IsCommand args c) : c.Valid := by
  cases h with
  | ping _ => exact Command.valid_key (by simp) fun _ => rfl
  | set _ hkey hvalue => exact ⟨hkey, nofun, hvalue, fun h => absurd rfl h, le_rfl, by norm_num, fun _ => rfl⟩
  | get _ hkey => exact Command.valid_key hkey nofun
  | del _ hkey => exact Command.valid_key hkey nofun
  | «exists» _ hkey => exact Command.valid_key hkey nofun
  | ttl _ hkey => exact Command.valid_key hkey nofun
  | @expire _ key _ s _ hkey _ hle =>
    have hmax : (s : Int) ≤ 2 ^ 63 - 1 := by omega
    exact ⟨hkey, nofun, by simp, fun _ => rfl, Int.natCast_nonneg s, hmax, fun h => absurd rfl h⟩

theorem valid_of_parseCommand {input : Bytes} {n : Nat} (h : parseCommand input = .parsedCommand c n) :
    c.Valid := by
  obtain ⟨args, raw, rest, -, -, -, hc⟩ := isCommand_of_parseCommand h
  exact hc.valid

theorem length_decimalText_le {n : Int} (hpos : 0 ≤ n) (hmax : n ≤ 2 ^ 63 - 1) :
    (decimalText n).length ≤ 19 := by
  obtain ⟨k, rfl⟩ := Int.eq_ofNat_of_zero_le hpos
  exact length_ofNat_le (by decide) (by omega)

theorem Command.mem_params {part : Bytes} (h : part ∈ c.params) :
    part = c.key ∨ part = c.value ∨ part = decimalText c.seconds := by
  obtain ⟨type, key, value, seconds⟩ := c
  cases type with
  | kPing => cases h
  | kSet =>
    rcases List.mem_pair.mp h with rfl | rfl
    · exact .inl rfl
    · exact .inr (.inl rfl)
  | kExpire =>
    rcases List.mem_pair.mp h with rfl | rfl
    · exact .inl rfl
    · exact .inr (.inr rfl)
  | _ => exact .inl (List.mem_singleton.mp h)

theorem Command.length_params_le (c : Command) : c.params.length ≤ 2 := by
  unfold Command.params
  cases c.type <;> simp

theorem Command.Valid.encodable (h : c.Valid) (hname : Spells name c.type.name) :
    Encodable (c.parts name) := by
  have hshort : name.length ≤ 6 := by
    rw [hname.length_eq]
    cases c.type <;> decide
  refine ⟨Nat.succ_le_succ c.length_params_le, fun part hpart => ?_⟩
  rcases List.mem_cons.mp hpart with rfl | hpart
  · omega
  rcases Command.mem_params hpart with rfl | rfl | rfl
  · exact le_trans h.key_le (by decide)
  · exact h.value_le
  · exact le_trans (length_decimalText_le h.seconds_nonneg h.seconds_le) (by decide)

/-- A valid command, with its name in any mixture of cases, is parsed back from its encoding, whatever bytes
follow; as long as a byte of the encoding is missing the parser asks for more. -/
theorem command_round_trip (c : Command) (hc : c.Valid) (name : Bytes) (hname : Spells name c.type.name) :
    (∀ rest, parseCommand (encodeCommand (c.parts name) ++ rest) =
      .parsedCommand c (encodeCommand (c.parts name)).length) ∧
    ∀ s, s <+: encodeCommand (c.parts name) → s ≠ encodeCommand (c.parts name) →
      parseCommand s = .needMoreData := by
  have henc := hc.encodable hname
  refine ⟨fun rest => ?_, fun s hs hne => parseCommand_encodePrefix henc hs hne⟩
  rw [parseCommand_of_isFrame henc.isFrame rest]
  exact frameVerdict_eq_parsedCommand_iff.mpr ⟨hc.isCommand hname, rfl⟩

end

/-- An `EXPIRE` with the largest number of seconds and a key that looks like a frame. -/
def longestExpire : Command :=
  { type := .kExpire, key := ascii "*1\r\n$4\r\nPING\r\n", seconds := 9223372036854775807 }

theorem longestExpire_valid : longestExpire.Valid :=
  ⟨by decide, nofun, by decide, fun _ => rfl, by decide, by decide, fun h => absurd rfl h⟩

theorem command_round_trip_expire :
    parseCommand (encodeCommand (longestExpire.parts (ascii "eXpIrE")) ++ ascii "\r\n*") =
        .parsedCommand longestExpire 63 ∧
      parseCommand (ascii "*3\r\n$6\r\neXpIrE\r\n$14\r\n*1\r\n$4\r\nPING\r\n\r\n$19\r") = .needMoreData := by
  have htrip := command_round_trip longestExpire longestExpire_valid (ascii "eXpIrE") (by unfold Spells; decide)
  have hlen : (encodeCommand (longestExpire.parts (ascii "eXpIrE"))).length = 63 := by decide +kernel
  exact ⟨hlen ▸ htrip.1 _, htrip.2 _ (by decide +kernel) (by decide +kernel)⟩

end KvStore
