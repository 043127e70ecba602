import KvStore.Command
import KvStore.Lib.Decimal

/-!
# The request grammar

What `docs/PROTOCOL.md` §2 and §4 and the limits of `SPEC.md` §4 allow on the wire, stated without
reference to the parser. `IsFrame args raw`: `raw` is one array of bulk strings with the bodies
`args`. `IsCommand args c`: these bodies are the command `c`.
-/

namespace KvStore
open ByteString Decimal

/-- `text` is a nonempty string of digits that denotes `n`. -/
structure IsNumeral (text : Bytes) (n : Nat) : Prop where
  ne_nil : text ≠ []
  digits : ∀ b ∈ text, IsDigit b
  value_eq : value text = n

/-- A length field: 1 to 20 digits, leading zeros allowed. -/
structure IsHeader (text : Bytes) (n : Nat) : Prop extends IsNumeral text n where
  length_le : text.length ≤ 20

/-- `'$' L CRLF body CRLF`. -/
def IsBlock (body raw : Bytes) : Prop :=
  ∃ L, IsHeader L body.length ∧ body.length ≤ 1048576 ∧
    raw = 36 :: (L ++ (crlf ++ (body ++ crlf)))

inductive IsBlocks : List Bytes → Bytes → Prop
  | nil : IsBlocks [] []
  | cons {body raw : Bytes} {bodies : List Bytes} {raws : Bytes} :
    IsBlock body raw → IsBlocks bodies raws → IsBlocks (body :: bodies) (raw ++ raws)

/-- `'*' D CRLF` followed by one block for each element of `args`. -/
def IsFrame (args : List Bytes) (raw : Bytes) : Prop :=
  ∃ D blocks, IsHeader D args.length ∧ args.length ≤ 3 ∧ IsBlocks args blocks ∧
    raw = 42 :: (D ++ (crlf ++ blocks))

/-- `text` spells the upper-case name `name` up to ASCII case. -/
def Spells (text : Bytes) (name : String) : Prop :=
  List.Forall₂ (fun x y => x = y ∨ x = y + 32) text (ascii name)

inductive IsCommand : List Bytes → Command → Prop
  | ping {name : Bytes} : Spells name "PING" → IsCommand [name] { type := .kPing }
  | set {name key value : Bytes} : Spells name "SET" → key.length ≤ 512 → value.length ≤ 1048576 →
    IsCommand [name, key, value] { type := .kSet, key, value }
  | get {name key : Bytes} : Spells name "GET" → key.length ≤ 512 →
    IsCommand [name, key] { type := .kGet, key }
  | del {name key : Bytes} : Spells name "DEL" → key.length ≤ 512 →
    IsCommand [name, key] { type := .kDel, key }
  | exists {name key : Bytes} : Spells name "EXISTS" → key.length ≤ 512 →
    IsCommand [name, key] { type := .kExists, key }
  | ttl {name key : Bytes} : Spells name "TTL" → key.length ≤ 512 →
    IsCommand [name, key] { type := .kTtl, key }
  | expire {name key seconds : Bytes} {s : Nat} : Spells name "EXPIRE" → key.length ≤ 512 →
    IsNumeral seconds s → s ≤ 2 ^ 63 - 1 →
    IsCommand [name, key, seconds] { type := .kExpire, key, seconds := s }

theorem isNumeral_ofNat (n : Nat) : IsNumeral (ofNat n) n :=
  ⟨ofNat_ne_nil n, fun _ hb => isDigit_of_mem_ofNat hb, value_ofNat n⟩

theorem IsNumeral.zeros_append {ds : Bytes} {n : Nat} (h : IsNumeral ds n) (k : Nat) :
    IsNumeral (List.replicate k 48 ++ ds) n := by
  refine ⟨fun hnil => h.ne_nil (List.append_eq_nil_iff.mp hnil).2, fun b hb => ?_, ?_⟩
  · rcases List.mem_append.mp hb with hzero | hds
    · rw [(List.mem_replicate.mp hzero).2]
      decide
    · exact h.digits b hds
  · rw [value_zeros_append, h.value_eq]

theorem IsHeader.cr_notMem {text : Bytes} {n : Nat} (h : IsHeader text n) : cr ∉ text :=
  Decimal.cr_notMem h.digits

/-! ### Lengths -/

theorem IsBlock.length_le {body raw : Bytes} (h : IsBlock body raw) : raw.length ≤ body.length + 25 := by
  obtain ⟨L, hL, -, rfl⟩ := h
  have := hL.length_le
  simp only [crlf, List.length_cons, List.length_append, List.length_nil]
  omega

theorem IsBlocks.length_le {bodies : List Bytes} {raw : Bytes} (h : IsBlocks bodies raw) :
    raw.length ≤ bodies.flatten.length + 25 * bodies.length := by
  induction h with
  | nil => exact Nat.zero_le _
  | cons hblock _ ih =>
    have := hblock.length_le
    simp only [List.length_append, List.flatten_cons, List.length_cons]
    omega

theorem IsFrame.length_le {args : List Bytes} {raw : Bytes} (h : IsFrame args raw) :
    raw.length ≤ args.flatten.length + 98 := by
  obtain ⟨D, blocks, hD, hthree, hblocks, rfl⟩ := h
  have := hD.length_le
  have := hblocks.length_le
  simp only [crlf, List.length_cons, List.length_append, List.length_nil]
  omega

theorem IsBlocks.body_le {bodies : List Bytes} {raw : Bytes} (h : IsBlocks bodies raw) :
    ∀ body ∈ bodies, body.length ≤ 1048576 := by
  induction h with
  | nil => exact fun _ hbody => absurd hbody List.not_mem_nil
  | cons hblock _ ih =>
    intro body hbody
    rcases List.mem_cons.mp hbody with rfl | hbody
    · exact hblock.choose_spec.2.1
    · exact ih body hbody

end KvStore
