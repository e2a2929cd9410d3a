/-
BSON values as `bson_value_t` and the iterators of the library give access to them.

Documents are lists of named values in stored order, arrays lists of their elements, whose
names are the numerals of their positions. Numbers keep their bit patterns, since the hash
functions tell the patterns of one number apart.

Field names, regular expressions and their options are C strings, without a zero byte
(`Value.namesOk`); strings, symbols and code may hold one. The bound on sizes is a field of
`Pgbson`.
-/
import Mathlib.Data.List.Basic
import Mathlib.Data.Nat.Digits.Defs

namespace DocumentDb

abbrev Bytes := List UInt8

/-- `bson_oid_t`: twelve bytes. -/
structure Oid where
  bytes : Bytes
  length_eq : bytes.length = 12
  deriving DecidableEq, Repr

/-- `bson_decimal128_t`: the two words of a decimal in the binary integer
encoding. -/
structure Decimal128 where
  high : UInt64
  low : UInt64
  deriving DecidableEq, Repr

/-- `bson_value_t` together with what its pointers reach. -/
inductive Value where
  | double (bits : UInt64)
  | utf8 (str : Bytes)
  | document (fields : List (Bytes × Value))
  | array (elems : List Value)
  | binary (subtype : UInt8) (data : Bytes)
  | undefined
  | oid (o : Oid)
  | bool (b : Bool)
  | dateTime (ms : Int64)
  | null
  | regex (pattern options : Bytes)
  | dbPointer (collection : Bytes) (o : Oid)
  | code (code : Bytes)
  | symbol (sym : Bytes)
  | codeWScope (code : Bytes) (scope : List (Bytes × Value))
  | int32 (n : Int32)
  | timestamp (seconds increment : UInt32)
  | int64 (n : Int64)
  | decimal128 (d : Decimal128)
  | minKey
  | maxKey
  deriving Repr

/-- The elements of a document in stored order. -/
abbrev Fields := List (Bytes × Value)

/-- The name of the array element at a position: its decimal numeral. -/
def arrayKey (i : Nat) : Bytes :=
  if i = 0 then [48]
  else (Nat.digits 10 i).reverse.map fun d => UInt8.ofNat (48 + d)

theorem arrayKey_ne_nil (i : Nat) : arrayKey i ≠ [] := by
  unfold arrayKey
  split_ifs with hi
  · simp
  · simp [Nat.digits_ne_nil_iff_ne_zero, hi]

theorem arrayKey_digit {i : Nat} {b : UInt8} (hb : b ∈ arrayKey i) :
    48 ≤ b.toNat ∧ b.toNat ≤ 57 := by
  unfold arrayKey at hb
  split_ifs at hb with hi
  · simp only [List.mem_singleton] at hb
    subst hb
    decide
  · obtain ⟨d, hd, rfl⟩ := List.mem_map.1 hb
    have hlt : d < 10 := Nat.digits_lt_base (by norm_num) (List.mem_reverse.1 hd)
    simp only [UInt8.toNat_ofNat']
    omega

-- ==== types

/-- `bson_type_t`. -/
inductive BsonType where
  | double | utf8 | document | array | binary | undefined | oid | bool
  | dateTime | null | regex | dbPointer | code | symbol | codeWScope
  | int32 | timestamp | int64 | decimal128 | maxKey | minKey
  deriving DecidableEq, Repr

def BsonType.byte : BsonType → UInt8
  | double => 0x01
  | utf8 => 0x02
  | document => 0x03
  | array => 0x04
  | binary => 0x05
  | undefined => 0x06
  | oid => 0x07
  | bool => 0x08
  | dateTime => 0x09
  | null => 0x0A
  | regex => 0x0B
  | dbPointer => 0x0C
  | code => 0x0D
  | symbol => 0x0E
  | codeWScope => 0x0F
  | int32 => 0x10
  | timestamp => 0x11
  | int64 => 0x12
  | decimal128 => 0x13
  | maxKey => 0x7F
  | minKey => 0xFF

theorem BsonType.byte_injective : Function.Injective byte := by
  intro s t h
  cases s <;> cases t <;> first | rfl | exact absurd h (by decide)

namespace Value

def type : Value → BsonType
  | double _ => .double
  | utf8 _ => .utf8
  | document _ => .document
  | array _ => .array
  | binary _ _ => .binary
  | undefined => .undefined
  | oid _ => .oid
  | bool _ => .bool
  | dateTime _ => .dateTime
  | null => .null
  | regex _ _ => .regex
  | dbPointer _ _ => .dbPointer
  | code _ => .code
  | symbol _ => .symbol
  | codeWScope _ _ => .codeWScope
  | int32 _ => .int32
  | timestamp _ _ => .timestamp
  | int64 _ => .int64
  | decimal128 _ => .decimal128
  | minKey => .minKey
  | maxKey => .maxKey

def isScalar : Value → Bool
  | document _ | array _ | codeWScope _ _ => false
  | _ => true

def elements? : Value → Option (List Value)
  | .array es => some es
  | _ => none

theorem eq_array_of_elements? {v : Value} {es : List Value}
    (h : v.elements? = some es) : v = .array es := by
  cases v with
  | array es' =>
    cases h
    rfl
  | _ => cases h

theorem induction {P : Value → Prop} (document : ∀ fs : Fields, (∀ f ∈ fs, P f.2) → P (document fs))
    (array : ∀ es : List Value, (∀ e ∈ es, P e) → P (array es))
    (codeWScope : ∀ (c : Bytes) (fs : Fields), (∀ f ∈ fs, P f.2) → P (codeWScope c fs))
    (scalar : ∀ v : Value, v.isScalar → P v) (v : Value) : P v :=
  @rec P (fun fs => ∀ f ∈ fs, P f.2) (fun es => ∀ e ∈ es, P e) (fun f => P f.2)
    (fun _ => scalar _ rfl) (fun _ => scalar _ rfl) document array
    (fun _ _ => scalar _ rfl) (scalar _ rfl) (fun _ => scalar _ rfl)
    (fun _ => scalar _ rfl) (fun _ => scalar _ rfl) (scalar _ rfl)
    (fun _ _ => scalar _ rfl) (fun _ _ => scalar _ rfl)
    (fun _ => scalar _ rfl) (fun _ => scalar _ rfl) codeWScope
    (fun _ => scalar _ rfl) (fun _ _ => scalar _ rfl)
    (fun _ => scalar _ rfl) (fun _ => scalar _ rfl) (scalar _ rfl)
    (scalar _ rfl) (by simp)
    (fun _ _ hf hfs => List.forall_mem_cons.2 ⟨hf, hfs⟩) (by simp)
    (fun _ _ he hes => List.forall_mem_cons.2 ⟨he, hes⟩) (fun _ _ h => h)
    v

end Value

end DocumentDb
