import Simta.HeaderText

/-!
# Addresses in running text

What the rest of the program reads addresses with: the syntax check `is_emailaddr`, the correction
of an alias value, and the list of addresses of a line of a `.forward` file or of an attribute.

* `isEmailaddr`, `correctEmailaddr` — one address;
* `strchrAt` — the first `@` of a text, as `strchr` finds it;
* `addressStrings` — the addresses of a line, in order.
-/

set_option autoImplicit false

namespace Simta

/-- `is_emailaddr`. -/
def isEmailaddr (addr : Text) : Bool := (parseEmailaddr .normal addr).isSome

/-- What `correct_emailaddr` makes of an address; `none` when it cannot be corrected. -/
def correctEmailaddr (domain addr : Text) : Option Text :=
  match tokenUser addr with
  | none => none
  | some (_, '@' :: d) =>
    match tokenAddressDomain d with
    | some (_, []) => some addr
    | _ => none
  | some (user, []) => some (user ++ '@' :: domain)
  | some _ => none

/-- `strchr( addr, '@' )`: the texts before and behind. -/
def strchrAt (addr : Text) : Option (Text × Text) :=
  match addr.dropWhile (· ≠ '@') with
  | [] => none
  | _ :: domain => some (addr.takeWhile (· ≠ '@'), domain)

/-! ## Lists of addresses -/

/-- An address in angle brackets, from behind the `<`, and what follows the `>`. -/
def angleAddress (u : Text) : Option (Text × Text) :=
  match u.dropWhile (· ≠ '>') with
  | [] => none
  | _ :: rest => some (u.takeWhile (· ≠ '>'), rest)

/-- The words of a display name and the address in angle brackets behind them. -/
def namedAddress : Nat → Text → Option (Text × Text)
  | 0, _ => none
  | _ + 1, '<' :: u => angleAddress u
  | fuel + 1, start =>
    match tokenUser start with
    | none => none
    | some (_, rest) => (skipCws rest).bind (namedAddress fuel)

/-- One address of a list, from its first character, and what follows it. -/
def listAddress (start : Text) : Option (Text × Text) :=
  if start.head? = some '"' ∨ start.head? = some '<' then namedAddress (start.length + 1) start
  else
    match tokenDotAtom start with
    | none => none
    | some (user, '@' :: d) => (routeDomain d).map fun r => (user ++ '@' :: r.1, r.2)
    | some (_, rest) => (skipCws rest).bind (namedAddress (start.length + 1))

/-- What follows the comma behind an address. -/
def behindComma (rest : Text) : Option Text :=
  match skipCws rest with
  | some (',' :: u) => skipCws u
  | _ => none

/-- The addresses from `start` on, before anything is said of their syntax. -/
def addressStringsFrom : Nat → Text → List Text
  | 0, _ => []
  | fuel + 1, start =>
    match listAddress start with
    | none => []
    | some (addr, rest) =>
      addr :: match behindComma rest with
        | none => []
        | some start => addressStringsFrom fuel start

/-- The addresses that the loops of `address_string_recipients` and `string_address_parse` come to. -/
def addressStrings (line : Text) : List Text :=
  match skipCws line with
  | none => []
  | some start => addressStringsFrom (line.length + 1) start

end Simta
