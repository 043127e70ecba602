import KvStore.Lib.Decimal
import Mathlib.Data.List.TakeWhile

/-!
# The command line

`cli/options.cpp`, `Logger::parse_level` and what `main` does before it starts a server. A command line is a
list of settings, each one or two arguments long; `parse_args_spec` says that exactly these are accepted and
what they amount to, and that everything else is refused with a message about the first argument that does not
fit. Every configuration can be asked for (`options_round_trip`).
-/

namespace KvStore
open ByteString Decimal

structure ServerOptions where
  bindAddress : Bytes := ascii "0.0.0.0"
  port : BitVec 16 := 6380
  workerCount : BitVec 64 := 4
  shardCount : BitVec 64 := 32
  queueCapacity : BitVec 64 := 1024
  logLevel : Bytes := ascii "info"
  showHelp : Bool := false
  showVersion : Bool := false
deriving DecidableEq, Repr

inductive LogLevel where
  | kDebug
  | kInfo
  | kWarn
  | kError
deriving DecidableEq, Repr

def lowered (name : Bytes) : Bytes := name.map fun c => if 65 ≤ c ∧ c ≤ 90 then c - 65 + 97 else c

/-- `Logger::parse_level`. -/
def parseLevel (name : Bytes) : Option LogLevel :=
  if lowered name = ascii "debug" then some .kDebug
  else if lowered name = ascii "info" then some .kInfo
  else if lowered name = ascii "warn" ∨ lowered name = ascii "warning" then some .kWarn
  else if lowered name = ascii "error" then some .kError
  else none

/-- `std::from_chars` for an unsigned type: the value and the text behind it; `none` if there is no digit or the
value does not fit. -/
def fromChars (width : Nat) (text : Bytes) : Option (BitVec width × Bytes) :=
  let digits := text.takeWhile fun b => IsDigit b
  if digits = [] ∨ 2 ^ width ≤ value digits then none
  else some (BitVec.ofNat width (value digits), text.dropWhile fun b => IsDigit b)

def quoted (text : Bytes) : Bytes := ascii "'" ++ text ++ ascii "'"

def invalidValue (flag value : Bytes) : Bytes := ascii "invalid value for " ++ flag ++ ascii ": " ++ quoted value

def parseUnsigned (width : Nat) (flag value : Bytes) : Except Bytes (BitVec width) :=
  match fromChars width value with
  | some (result, []) => .ok result
  | _ => .error (invalidValue flag value)

/-- The options that take a value. -/
inductive ValueFlag where
  | bind
  | port
  | workers
  | shards
  | queueCapacity
  | logLevel
deriving DecidableEq, Repr

def ValueFlag.name : ValueFlag → Bytes
  | .bind => ascii "--bind"
  | .port => ascii "--port"
  | .workers => ascii "--workers"
  | .shards => ascii "--shards"
  | .queueCapacity => ascii "--queue-capacity"
  | .logLevel => ascii "--log-level"

inductive Flag where
  | help
  | version
  | value (flag : ValueFlag)
deriving DecidableEq, Repr

/-- The comparisons of `parse_args`, in its order. -/
def Flag.ofArg (arg : Bytes) : Option Flag :=
  if arg = ascii "--help" ∨ arg = ascii "-h" then some .help
  else if arg = ascii "--version" ∨ arg = ascii "-v" then some .version
  else if arg = ascii "--bind" then some (.value .bind)
  else if arg = ascii "--port" then some (.value .port)
  else if arg = ascii "--workers" then some (.value .workers)
  else if arg = ascii "--shards" then some (.value .shards)
  else if arg = ascii "--queue-capacity" then some (.value .queueCapacity)
  else if arg = ascii "--log-level" then some (.value .logLevel)
  else none

/-- What `parse_args` does with the value of an option. -/
def ValueFlag.assign (flag : ValueFlag) (value : Bytes) (options : ServerOptions) : Except Bytes ServerOptions :=
  match flag with
  | .bind => .ok { options with bindAddress := value }
  | .port => (parseUnsigned 16 flag.name value).map fun n => { options with port := n }
  | .workers => (parseUnsigned 64 flag.name value).map fun n => { options with workerCount := n }
  | .shards => (parseUnsigned 64 flag.name value).map fun n => { options with shardCount := n }
  | .queueCapacity => (parseUnsigned 64 flag.name value).map fun n => { options with queueCapacity := n }
  | .logLevel =>
    if (parseLevel value).isSome then .ok { options with logLevel := value }
    else .error (invalidValue flag.name value)

/-- The loop of `parse_args` from the given options on. -/
def parseArgsFrom (options : ServerOptions) : List Bytes → Except Bytes ServerOptions
  | [] => .ok options
  | arg :: rest =>
    match Flag.ofArg arg with
    | none => .error (ascii "unknown option: " ++ quoted arg)
    | some .help => parseArgsFrom { options with showHelp := true } rest
    | some .version => parseArgsFrom { options with showVersion := true } rest
    | some (.value flag) =>
      match rest with
      | [] => .error (ascii "missing value for " ++ arg)
      | value :: rest =>
        match flag.assign value options with
        | .error e => .error e
        | .ok options => parseArgsFrom options rest

def parseArgs (args : List Bytes) : Except Bytes ServerOptions := parseArgsFrom {} args

def usageText : Bytes :=
  ascii "Usage: kvstore_server [options]\n" ++
  ascii "\n" ++
  ascii "Options:\n" ++
  ascii "  --bind <address>        Bind address (default: 0.0.0.0)\n" ++
  ascii "  --port <port>           Listen port (default: 6380)\n" ++
  ascii "  --workers <count>       Worker thread count (default: 4)\n" ++
  ascii "  --shards <count>        Storage shard count, rounded up to a power of two (default: 32)\n" ++
  ascii "  --queue-capacity <n>    Work/completion queue capacity (default: 1024)\n" ++
  ascii "  --log-level <level>     debug | info | warn | error (default: info)\n" ++
  ascii "  --help                  Print this message and exit\n" ++
  ascii "  --version               Print the version and exit\n"

def versionText : Bytes := ascii "0.1.0"

/-- What `main` does with its arguments: it prints something and exits, or goes on to start a server. -/
inductive Startup where
  | exits (code : Nat) (out err : Bytes)
  | serves (options : ServerOptions) (level : LogLevel)
deriving DecidableEq, Repr

/-- `none` if `main` dereferences an empty level. -/
def startup (args : List Bytes) : Option Startup :=
  match parseArgs args with
  | .error e => some (.exits 1 [] (ascii "error: " ++ e ++ ascii "\n\n" ++ usageText))
  | .ok options =>
    if options.showHelp then some (.exits 0 usageText [])
    else if options.showVersion then some (.exits 0 (ascii "cpp-kv-store " ++ versionText ++ ascii "\n") [])
    else (parseLevel options.logLevel).map (.serves options)

/-! ### Values -/

/-- Digits only, leading zeros allowed, and the number fits. -/
def IsUnsigned (width : Nat) (text : Bytes) : Prop := text ≠ [] ∧ (∀ b ∈ text, IsDigit b) ∧ value text < 2 ^ width

instance (width : Nat) (text : Bytes) : Decidable (IsUnsigned width text) := inferInstanceAs (Decidable (_ ∧ _))

theorem parseUnsigned_of_isUnsigned {width : Nat} {text : Bytes} (h : IsUnsigned width text) (flag : Bytes) :
    parseUnsigned width flag text = .ok (BitVec.ofNat width (value text)) := by
  obtain ⟨hne, hdigits, hlt⟩ := h
  have htake : text.takeWhile (fun b => decide (IsDigit b)) = text :=
    List.takeWhile_eq_self_iff.mpr fun b hb => decide_eq_true (hdigits b hb)
  have hdrop : text.dropWhile (fun b => decide (IsDigit b)) = [] :=
    List.dropWhile_eq_nil_iff.mpr fun b hb => decide_eq_true (hdigits b hb)
  have hok : ¬ (text = [] ∨ 2 ^ width ≤ value text) := by
    rintro (hnil | hle)
    · exact hne hnil
    · omega
  unfold parseUnsigned fromChars
  simp only [htake, hdrop, if_neg hok]

theorem parseUnsigned_of_not_isUnsigned {width : Nat} {text : Bytes} (h : ¬ IsUnsigned width text) (flag : Bytes) :
    parseUnsigned width flag text = .error (invalidValue flag text) := by
  unfold parseUnsigned fromChars
  dsimp only
  split_ifs with hbad
  · rfl
  · cases hdrop : text.dropWhile fun b => decide (IsDigit b) with
    | cons b rest => rfl
    | nil =>
      -- all digits, so the text would be a numeral
      have hdigits : ∀ b ∈ text, IsDigit b := fun b hb =>
        of_decide_eq_true (List.dropWhile_eq_nil_iff.mp hdrop b hb)
      rw [List.takeWhile_eq_self_iff.mpr fun b hb => decide_eq_true (hdigits b hb)] at hbad
      exact absurd ⟨fun hnil => hbad (.inl hnil), hdigits, Nat.lt_of_not_le fun hle => hbad (.inr hle)⟩ h

def ValueFlag.Accepts : ValueFlag → Bytes → Prop
  | .bind, _ => True
  | .port, text => IsUnsigned 16 text
  | .workers, text | .shards, text | .queueCapacity, text => IsUnsigned 64 text
  | .logLevel, text => (parseLevel text).isSome = true

/-- What an accepted value amounts to. -/
def ValueFlag.put (flag : ValueFlag) (text : Bytes) (options : ServerOptions) : ServerOptions :=
  match flag with
  | .bind => { options with bindAddress := text }
  | .port => { options with port := BitVec.ofNat 16 (value text) }
  | .workers => { options with workerCount := BitVec.ofNat 64 (value text) }
  | .shards => { options with shardCount := BitVec.ofNat 64 (value text) }
  | .queueCapacity => { options with queueCapacity := BitVec.ofNat 64 (value text) }
  | .logLevel => { options with logLevel := text }

theorem ValueFlag.assign_of_accepts {flag : ValueFlag} {text : Bytes} (h : flag.Accepts text)
    (options : ServerOptions) : flag.assign text options = .ok (flag.put text options) := by
  cases flag with
  | bind => rfl
  | logLevel => exact if_pos h
  | port | workers | shards | queueCapacity => rw [assign, parseUnsigned_of_isUnsigned h]; rfl

theorem ValueFlag.assign_of_not_accepts {flag : ValueFlag} {text : Bytes} (h : ¬ flag.Accepts text)
    (options : ServerOptions) : flag.assign text options = .error (invalidValue flag.name text) := by
  cases flag with
  | bind => exact absurd trivial h
  | logLevel => exact if_neg h
  | port | workers | shards | queueCapacity => rw [assign, parseUnsigned_of_not_isUnsigned h]; rfl

/-! ### The arguments -/

def optionNames : List Bytes :=
  [ascii "--help", ascii "-h", ascii "--version", ascii "-v", ascii "--bind", ascii "--port", ascii "--workers",
    ascii "--shards", ascii "--queue-capacity", ascii "--log-level"]

/-- One option on the command line. -/
inductive Setting where
  | help (short : Bool)
  | version (short : Bool)
  | value (flag : ValueFlag) (text : Bytes)
deriving DecidableEq, Repr

namespace Setting

def args : Setting → List Bytes
  | .help short => [if short then ascii "-h" else ascii "--help"]
  | .version short => [if short then ascii "-v" else ascii "--version"]
  | .value flag text => [flag.name, text]

def Valid : Setting → Prop
  | .value flag text => flag.Accepts text
  | _ => True

def apply (options : ServerOptions) : Setting → ServerOptions
  | .help _ => { options with showHelp := true }
  | .version _ => { options with showVersion := true }
  | .value flag text => flag.put text options

end Setting

/-- The arguments start with one that does not fit, and this is what is said about it. -/
inductive Offends : List Bytes → Bytes → Prop
  | unknown {arg : Bytes} {rest : List Bytes} : arg ∉ optionNames →
    Offends (arg :: rest) (ascii "unknown option: " ++ quoted arg)
  | missing (flag : ValueFlag) : Offends [flag.name] (ascii "missing value for " ++ flag.name)
  | invalid (flag : ValueFlag) {text : Bytes} {rest : List Bytes} : ¬ flag.Accepts text →
    Offends (flag.name :: text :: rest) (invalidValue flag.name text)

theorem Flag.ofArg_name (flag : ValueFlag) : Flag.ofArg flag.name = some (.value flag) := by
  cases flag <;> decide +kernel

theorem Flag.ofArg_help (short : Bool) : Flag.ofArg (if short then ascii "-h" else ascii "--help") = some .help := by
  cases short <;> decide +kernel

theorem Flag.ofArg_version (short : Bool) :
    Flag.ofArg (if short then ascii "-v" else ascii "--version") = some .version := by
  cases short <;> decide +kernel

theorem Flag.ofArg_cases (arg : Bytes) :
    Flag.ofArg arg = none ∧ arg ∉ optionNames ∨
    (∃ short : Bool, Flag.ofArg arg = some .help ∧ arg = if short then ascii "-h" else ascii "--help") ∨
    (∃ short : Bool, Flag.ofArg arg = some .version ∧ arg = if short then ascii "-v" else ascii "--version") ∨
    ∃ flag, Flag.ofArg arg = some (.value flag) ∧ arg = flag.name := by
  unfold Flag.ofArg
  by_cases h1 : arg = ascii "--help" ∨ arg = ascii "-h"
  · rw [if_pos h1]
    rcases h1 with h | h
    · exact .inr (.inl ⟨false, rfl, h⟩)
    · exact .inr (.inl ⟨true, rfl, h⟩)
  rw [if_neg h1]
  by_cases h2 : arg = ascii "--version" ∨ arg = ascii "-v"
  · rw [if_pos h2]
    rcases h2 with h | h
    · exact .inr (.inr (.inl ⟨false, rfl, h⟩))
    · exact .inr (.inr (.inl ⟨true, rfl, h⟩))
  rw [if_neg h2]
  by_cases h3 : arg = ascii "--bind"
  · rw [if_pos h3]; exact .inr (.inr (.inr ⟨.bind, rfl, h3⟩))
  rw [if_neg h3]
  by_cases h4 : arg = ascii "--port"
  · rw [if_pos h4]; exact .inr (.inr (.inr ⟨.port, rfl, h4⟩))
  rw [if_neg h4]
  by_cases h5 : arg = ascii "--workers"
  · rw [if_pos h5]; exact .inr (.inr (.inr ⟨.workers, rfl, h5⟩))
  rw [if_neg h5]
  by_cases h6 : arg = ascii "--shards"
  · rw [if_pos h6]; exact .inr (.inr (.inr ⟨.shards, rfl, h6⟩))
  rw [if_neg h6]
  by_cases h7 : arg = ascii "--queue-capacity"
  · rw [if_pos h7]; exact .inr (.inr (.inr ⟨.queueCapacity, rfl, h7⟩))
  rw [if_neg h7]
  by_cases h8 : arg = ascii "--log-level"
  · rw [if_pos h8]; exact .inr (.inr (.inr ⟨.logLevel, rfl, h8⟩))
  rw [if_neg h8]
  refine .inl ⟨rfl, ?_⟩
  rw [not_or] at h1 h2
  simp only [optionNames, List.mem_cons, List.not_mem_nil, or_false, not_or]
  exact ⟨h1.1, h1.2, h2.1, h2.2, h3, h4, h5, h6, h7, h8⟩

theorem ValueFlag.name_mem (flag : ValueFlag) : flag.name ∈ optionNames := by
  cases flag with
  | bind => exact List.mem_of_getElem? (i := 4) rfl
  | port => exact List.mem_of_getElem? (i := 5) rfl
  | workers => exact List.mem_of_getElem? (i := 6) rfl
  | shards => exact List.mem_of_getElem? (i := 7) rfl
  | queueCapacity => exact List.mem_of_getElem? (i := 8) rfl
  | logLevel => exact List.mem_of_getElem? (i := 9) rfl

theorem Flag.ofArg_of_notMem {arg : Bytes} (h : arg ∉ optionNames) : Flag.ofArg arg = none := by
  rcases Flag.ofArg_cases arg with ⟨hnone, -⟩ | ⟨short, -, rfl⟩ | ⟨short, -, rfl⟩ | ⟨flag, -, rfl⟩
  · exact hnone
  · cases short with
    | false => exact absurd (List.mem_of_getElem? (i := 0) rfl) h
    | true => exact absurd (List.mem_of_getElem? (i := 1) rfl) h
  · cases short with
    | false => exact absurd (List.mem_of_getElem? (i := 2) rfl) h
    | true => exact absurd (List.mem_of_getElem? (i := 3) rfl) h
  · exact absurd flag.name_mem h

variable {options : ServerOptions} {rest : List Bytes}

theorem parseArgsFrom_setting {setting : Setting} (h : setting.Valid) :
    parseArgsFrom options (setting.args ++ rest) = parseArgsFrom (setting.apply options) rest := by
  cases setting with
  | help short => rw [Setting.args, List.singleton_append, parseArgsFrom, Flag.ofArg_help]; rfl
  | version short => rw [Setting.args, List.singleton_append, parseArgsFrom, Flag.ofArg_version]; rfl
  | value flag text =>
    show parseArgsFrom options (flag.name :: text :: rest) = _
    rw [parseArgsFrom, Flag.ofArg_name]
    dsimp only
    rw [ValueFlag.assign_of_accepts h]; rfl

theorem parseArgsFrom_settings {settings : List Setting} (h : ∀ s ∈ settings, s.Valid) :
    parseArgsFrom options (settings.flatMap Setting.args ++ rest) =
      parseArgsFrom (settings.foldl Setting.apply options) rest := by
  induction settings generalizing options with
  | nil => rfl
  | cons s settings ih =>
    rw [List.forall_mem_cons] at h
    rw [List.flatMap_cons, List.append_assoc, parseArgsFrom_setting h.1, ih h.2]; rfl

theorem parseArgsFrom_offends {e : Bytes} (h : Offends rest e) : parseArgsFrom options rest = .error e := by
  cases h with
  | unknown hnot => rw [parseArgsFrom, Flag.ofArg_of_notMem hnot]
  | missing flag => rw [parseArgsFrom, Flag.ofArg_name]
  | invalid flag hnot =>
    rw [parseArgsFrom, Flag.ofArg_name]
    dsimp only
    rw [ValueFlag.assign_of_not_accepts hnot]

/-- The arguments are valid settings, or valid settings up to an argument that does not fit. -/
def Readable (args : List Bytes) : Prop :=
  ∃ settings : List Setting, (∀ s ∈ settings, s.Valid) ∧
    (args = settings.flatMap Setting.args ∨ ∃ rest e, args = settings.flatMap Setting.args ++ rest ∧ Offends rest e)

theorem Readable.offends {e : Bytes} (h : Offends rest e) : Readable rest := ⟨[], by simp, .inr ⟨rest, e, rfl, h⟩⟩

theorem Readable.setting {s : Setting} (hs : s.Valid) (h : Readable rest) : Readable (s.args ++ rest) := by
  obtain ⟨settings, hvalid, hrest⟩ := h
  refine ⟨s :: settings, List.forall_mem_cons.mpr ⟨hs, hvalid⟩, ?_⟩
  rcases hrest with rfl | ⟨rest', e, rfl, hoff⟩
  · exact .inl rfl
  · exact .inr ⟨rest', e, by rw [List.flatMap_cons, List.append_assoc], hoff⟩

theorem readable (args : List Bytes) : Readable args := by
  induction hlen : args.length using Nat.strongRecOn generalizing args with
  | ind n ih =>
    cases args with
    | nil => exact ⟨[], by simp, .inl rfl⟩
    | cons arg rest =>
      have hrest : Readable rest := ih rest.length (by rw [← hlen]; exact Nat.lt_succ_self _) rest rfl
      rcases Flag.ofArg_cases arg with ⟨-, hnot⟩ | ⟨short, -, rfl⟩ | ⟨short, -, rfl⟩ | ⟨flag, -, rfl⟩
      · exact .offends (.unknown hnot)
      · exact .setting (s := .help short) trivial hrest
      · exact .setting (s := .version short) trivial hrest
      · cases rest with
        | nil => exact .offends (.missing flag)
        | cons text rest =>
          by_cases haccepts : flag.Accepts text
          · have hless : rest.length < n := by rw [← hlen, List.length_cons, List.length_cons]; omega
            exact .setting (s := .value flag text) haccepts (ih rest.length hless rest rfl)
          · exact .offends (.invalid flag haccepts)

theorem parseArgs_settings {settings : List Setting} (h : ∀ s ∈ settings, s.Valid) :
    parseArgs (settings.flatMap Setting.args) = .ok (settings.foldl Setting.apply {}) := by
  have hread : parseArgsFrom {} (settings.flatMap Setting.args ++ []) =
      parseArgsFrom (settings.foldl Setting.apply {}) [] := parseArgsFrom_settings h
  rwa [List.append_nil] at hread

def ServerOptions.HasLevel (options : ServerOptions) : Prop := (parseLevel options.logLevel).isSome = true

theorem ServerOptions.hasLevel_default : ({} : ServerOptions).HasLevel := by
  unfold HasLevel; decide +kernel

theorem Setting.hasLevel_apply {s : Setting} (hs : s.Valid) (h : options.HasLevel) : (s.apply options).HasLevel := by
  cases s with
  | value flag text =>
    cases flag with
    | logLevel => exact hs
    | _ => exact h
  | _ => exact h

theorem hasLevel_settings {settings : List Setting} (hvalid : ∀ s ∈ settings, s.Valid) (h : options.HasLevel) :
    (settings.foldl Setting.apply options).HasLevel := by
  induction settings generalizing options with
  | nil => exact h
  | cons s settings ih =>
    rw [List.forall_mem_cons] at hvalid
    exact ih hvalid.2 (Setting.hasLevel_apply hvalid.1 h)

/-- `parse_args` accepts exactly the lists of valid settings and applies them in their order, the last one of an
option counting; it refuses everything else, with a message about the first argument that does not fit. What it
accepts has a log level that `parse_level` knows, as `main` takes for granted. -/
theorem parse_args_spec (args : List Bytes) :
    (∀ options, parseArgs args = .ok options ↔ ∃ settings : List Setting, (∀ s ∈ settings, s.Valid) ∧
      args = settings.flatMap Setting.args ∧ options = settings.foldl Setting.apply {}) ∧
    (∀ e, parseArgs args = .error e ↔ ∃ (settings : List Setting) (rest : List Bytes), (∀ s ∈ settings, s.Valid) ∧
      args = settings.flatMap Setting.args ++ rest ∧ Offends rest e) ∧
    (startup args).isSome = true := by
  have herror : ∀ {settings : List Setting} {rest : List Bytes} {e : Bytes}, (∀ s ∈ settings, s.Valid) →
      Offends rest e → parseArgs (settings.flatMap Setting.args ++ rest) = .error e := fun hvalid hoff => by
    rw [parseArgs, parseArgsFrom_settings hvalid, parseArgsFrom_offends hoff]
  have hok : ∀ options, parseArgs args = .ok options ↔ ∃ settings : List Setting, (∀ s ∈ settings, s.Valid) ∧
      args = settings.flatMap Setting.args ∧ options = settings.foldl Setting.apply {} := by
    intro options
    constructor
    · intro hparse
      obtain ⟨settings, hvalid, rfl | ⟨rest, e, rfl, hoff⟩⟩ := readable args
      · rw [parseArgs_settings hvalid] at hparse
        cases hparse
        exact ⟨settings, hvalid, rfl, rfl⟩
      · rw [herror hvalid hoff] at hparse; cases hparse
    · rintro ⟨settings, hvalid, rfl, rfl⟩
      exact parseArgs_settings hvalid
  refine ⟨hok, fun e => ⟨fun hparse => ?_, ?_⟩, ?_⟩
  · obtain ⟨settings, hvalid, rfl | ⟨rest, e', rfl, hoff⟩⟩ := readable args
    · rw [parseArgs_settings hvalid] at hparse; cases hparse
    · rw [herror hvalid hoff] at hparse
      cases hparse
      exact ⟨settings, rest, hvalid, rfl, hoff⟩
  · rintro ⟨settings, rest, hvalid, rfl, hoff⟩
    exact herror hvalid hoff
  · unfold startup
    cases hparse : parseArgs args with
    | error e => rfl
    | ok options =>
      obtain ⟨settings, hvalid, -, rfl⟩ := (hok options).mp hparse
      have hlevel := hasLevel_settings hvalid ServerOptions.hasLevel_default
      dsimp only
      split_ifs
      · rfl
      · rfl
      · rw [Option.isSome_map]; exact hlevel

/-! ### Asking for a configuration -/

/-- Settings that ask for these options. -/
def ServerOptions.settings (options : ServerOptions) : List Setting :=
  [.value .bind options.bindAddress, .value .port (ofNat options.port.toNat),
    .value .workers (ofNat options.workerCount.toNat), .value .shards (ofNat options.shardCount.toNat),
    .value .queueCapacity (ofNat options.queueCapacity.toNat), .value .logLevel options.logLevel] ++
    (if options.showHelp then [.help false] else []) ++ (if options.showVersion then [.version false] else [])

theorem isUnsigned_ofNat {width : Nat} (n : BitVec width) : IsUnsigned width (ofNat n.toNat) :=
  ⟨ofNat_ne_nil _, fun _ => isDigit_of_mem_ofNat, by rw [value_ofNat]; exact n.isLt⟩

theorem ofNat_value_ofNat {width : Nat} (n : BitVec width) : BitVec.ofNat width (value (ofNat n.toNat)) = n := by
  rw [value_ofNat, BitVec.ofNat_toNat, BitVec.setWidth_eq]

/-- Whatever `main` can be configured with, some command line configures it so. -/
theorem options_round_trip (options : ServerOptions) (hlevel : options.HasLevel) :
    parseArgs (options.settings.flatMap Setting.args) = .ok options := by
  have hvalid : ∀ s ∈ options.settings, s.Valid := by
    intro s hs
    simp only [ServerOptions.settings, List.mem_append, List.mem_cons, List.not_mem_nil, or_false] at hs
    rcases hs with ((rfl | rfl | rfl | rfl | rfl | rfl) | hs) | hs
    · trivial
    · exact isUnsigned_ofNat options.port
    · exact isUnsigned_ofNat options.workerCount
    · exact isUnsigned_ofNat options.shardCount
    · exact isUnsigned_ofNat options.queueCapacity
    · exact hlevel
    · split_ifs at hs
      · rw [List.mem_singleton.mp hs]; trivial
      · cases hs
    · split_ifs at hs
      · rw [List.mem_singleton.mp hs]; trivial
      · cases hs
  rw [parseArgs_settings hvalid]
  obtain ⟨bindAddress, port, workerCount, shardCount, queueCapacity, logLevel, showHelp, showVersion⟩ := options
  cases showHelp <;> cases showVersion <;>
    simp [ServerOptions.settings, Setting.apply, ValueFlag.put, ofNat_value_ofNat]

/-- No value is the default. -/
def loopbackOptions : ServerOptions where
  bindAddress := ascii "127.0.0.1"
  port := 65535
  workerCount := 1
  shardCount := 8
  queueCapacity := 18446744073709551615
  logLevel := ascii "WARN"
  showVersion := true

theorem options_round_trip_loopback :
    (loopbackOptions.settings.flatMap Setting.args).take 4 =
      [ascii "--bind", ascii "127.0.0.1", ascii "--port", ascii "65535"] ∧
    parseArgs (loopbackOptions.settings.flatMap Setting.args) = .ok loopbackOptions :=
  ⟨by decide +kernel, options_round_trip loopbackOptions (by unfold ServerOptions.HasLevel; decide +kernel)⟩

end KvStore
