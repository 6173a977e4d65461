import Mathlib.Data.List.AList
import Mathlib.Algebra.Group.Int
import Mathlib.Algebra.Group.Nat.Basic

/- The pieces of Go the modelled code leans on: the `error` values it produces or
   passes on, `strconv.Atoi`, the conversion `int32(x)`, `string(b)` for a byte
   slice, and `map[string]string`.

   A Go string is a sequence of bytes. A Lean `String` stands for it with one
   character per byte, so `len(s)` is `s.length` and `string(b)` is `ofBytes b`.
   Statements over every Lean string are statements over every Go string and more.

   `int32(x)` keeps the low 32 bits of `x` and reads them in two's complement:
   `(int32 x).toInt = x.bmod (2^32)` (`toInt_int32`). -/
namespace UniqushConn

/-- The `error` values of the modelled code. -/
inductive Error where
  /-- `proto.ErrBadPeerImpl`. -/
  | badPeerImpl
  /-- `proto.ErrMalformedCommand`. -/
  | malformedCommand
  /-- `redis.ErrNil`: the store replied nil where data was expected. -/
  | redisNil
  /-- An error reported by a collaborator: the socket, the store, a decoder. -/
  | io (msg : String)
  deriving DecidableEq, Repr

/-- `map[string]string`: keys are unique, and equality of maps is `lookup` equality. -/
abbrev StrMap := AList (fun _ : String => String)

/-- `len(s) == 0` exactly for the empty string. -/
theorem length_eq_zero_iff (s : String) : s.length = 0 ↔ s = "" := by
  cases s; simp [String.length, String.ext_iff]

/-! ## `strconv.Atoi` -/

/-- A leading `-` or `+`, and what follows it. -/
def splitSign : List Char → Bool × List Char
  | '-' :: ds => (true, ds)
  | '+' :: ds => (false, ds)
  | ds => (false, ds)

/-- The value of a string of decimal digits. -/
def decimalValue (ds : List Char) : Nat :=
  ds.foldl (fun n c => 10 * n + (c.toNat - '0'.toNat)) 0

/-- `strconv.Atoi`: an optional sign and one or more decimal digits whose value fits a
64-bit `int`; anything else is an error (`none`). -/
def atoi (s : String) : Option Int :=
  let (neg, ds) := splitSign s.toList
  if ds ≠ [] ∧ ds.all Char.isDigit then
    let v : Int := if neg then -(decimalValue ds : Int) else decimalValue ds
    if -2 ^ 63 ≤ v ∧ v < 2 ^ 63 then some v else none
  else none

/-- `Atoi` rejects the empty string. -/
theorem atoi_length_pos {s : String} {v : Int} (h : atoi s = some v) : 0 < s.length := by
  rcases Nat.eq_zero_or_pos s.length with h0 | h0
  · rw [(length_eq_zero_iff s).1 h0] at h; cases h
  · exact h0

/-! ## `int32(x)` -/

/-- `int32(x)`: the low 32 bits of `x`. -/
def int32 (x : Int) : BitVec 32 := BitVec.ofInt 32 x

@[simp] theorem toInt_int32 (x : Int) : (int32 x).toInt = x.bmod (2 ^ 32) :=
  BitVec.toInt_ofInt x

/-! ## `string(b)` -/

/-- `string(b)` for a byte slice `b`. -/
def ofBytes (b : List UInt8) : String := ⟨b.map fun x => Char.ofNat x.toNat⟩

end UniqushConn
