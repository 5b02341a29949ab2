import Klyro.World

/-!
# Glob patterns (`util/glob.rs`)

`*`, `?`, `[...]` and backslash escapes over raw bytes.  The matcher recurses on ever shorter
patterns, so the pattern's length is fuel enough.
-/

set_option autoImplicit false

namespace Klyro

/-- The loop of `match_class` at position `i`: whether `c` was found, and where the class ends. -/
def classLoop (p : Bytes) (c : UInt8) : Nat → Nat → Bool → Bool → Bool × Nat
  | 0, i, found, _ => (found, i)
  | fuel + 1, i, found, first =>
    match p[i]? with
    | none => (found, i)
    | some b =>
      if b ≠ 93 ∨ first then
        if b = 92 ∧ i + 1 < p.length then
          classLoop p c fuel (i + 2) (found || p.getD (i + 1) 0 == c) false
        else if i + 2 < p.length ∧ p.getD (i + 1) 0 = 45 ∧ p.getD (i + 2) 0 ≠ 93 then
          classLoop p c fuel (i + 3) (found || (decide (b ≤ c) && decide (c ≤ p.getD (i + 2) 0))) false
        else classLoop p c fuel (i + 1) (found || b == c) false
      else (found, i)

/-- `match_class`: membership of `c` in the class after the opening bracket, and how many bytes
of the pattern the class takes. -/
def matchClass (p : Bytes) (c : UInt8) : Bool × Nat :=
  let negate := p.head? = some 94 ∨ p.head? = some 33
  let r := classLoop p c p.length (if negate then 1 else 0) false true
  let i := if p[r.2]? = some 93 then r.2 + 1 else r.2
  (if negate then !r.1 else r.1, i)

/-- `glob_match_bytes`, with the number of pattern bytes left as fuel. -/
def globMatchBytes : Nat → Bytes → Bytes → Bool
  | 0, _, s => s.isEmpty
  | _, [], s => s.isEmpty
  | fuel + 1, b :: rest, s =>
    if b = 42 then
      rest.isEmpty || (List.range (s.length + 1)).any fun i => globMatchBytes fuel rest (s.drop i)
    else if b = 63 then !s.isEmpty && globMatchBytes fuel rest (s.drop 1)
    else if b = 91 then
      match s with
      | [] => false
      | c :: t =>
        let r := matchClass rest c
        r.1 && globMatchBytes fuel (rest.drop r.2) t
    else
      match b == 92, rest with
      | true, q :: rest' => s.head? == some q && globMatchBytes fuel rest' (s.drop 1)
      | _, _ => s.head? == some b && globMatchBytes fuel rest (s.drop 1)

/-- `glob_match`. -/
def globMatch (pattern s : Bytes) : Bool := globMatchBytes pattern.length pattern s

example : globMatch (Text.bytes "[^up]*") (Text.bytes "session:abc") = true := by decide

end Klyro
