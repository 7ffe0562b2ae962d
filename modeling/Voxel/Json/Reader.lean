import Voxel.Json.Basic
/-!
Reading the text of a JSON document into a tree. Reading never fails; it stops at the first fault
and leaves the mark of it in the tree.
-/
namespace Voxel.Json.Reader

def isBlank (c : Char) : Bool := c = ' ' || c = '\n' || c = '\t' || c = '\r'

def skip (cs : List Char) : List Char := cs.dropWhile isBlank

def after? : List Char → List Char → Option (List Char)
  | [], cs => some cs
  | _ :: _, [] => none
  | w :: ws, c :: cs => if w = c then after? ws cs else none

def hexDigit? (c : Char) : Option Nat :=
  if '0' ≤ c ∧ c ≤ '9' then some (c.toNat - '0'.toNat)
  else if 'a' ≤ c ∧ c ≤ 'f' then some (c.toNat - 'a'.toNat + 10)
  else if 'A' ≤ c ∧ c ≤ 'F' then some (c.toNat - 'A'.toNat + 10)
  else none

def hex? (a b c d : Char) : Option Nat := do
  let a ← hexDigit? a
  let b ← hexDigit? b
  let c ← hexDigit? c
  let d ← hexDigit? d
  return ((a * 16 + b) * 16 + c) * 16 + d

def escape? : Char → Option Char
  | '"' => some '"'
  | '\\' => some '\\'
  | '/' => some '/'
  | 'b' => some '\x08'
  | 'f' => some '\x0c'
  | 'n' => some '\n'
  | 'r' => some '\r'
  | 't' => some '\t'
  | _ => none

/-- A unit of a text: a character, or a 16-bit unit that an escape gives. -/
inductive Piece
  | char (c : Char)
  | unit (n : Nat)

/-- The pieces up to the closing quote and the text after it. -/
def pieces : Nat → List Char → List Piece → Option (List Piece × List Char)
  | 0, _, _ => none
  | fuel + 1, cs, done =>
    match cs with
    | [] => none
    | '"' :: rest => some (done.reverse, rest)
    | '\\' :: 'u' :: a :: b :: c :: d :: rest =>
      match hex? a b c d with
      | some n => pieces fuel rest (.unit n :: done)
      | none => none
    | '\\' :: c :: rest =>
      match escape? c with
      | some c => pieces fuel rest (.char c :: done)
      | none => none
    | c :: rest => if c.toNat < 0x20 then none else pieces fuel rest (.char c :: done)

def join : List Piece → Option (List Char)
  | [] => some []
  | .char c :: rest => (join rest).map (c :: ·)
  | .unit n :: rest =>
    if 0xD800 ≤ n ∧ n < 0xDC00 then
      match rest with
      | .unit m :: rest =>
        if 0xDC00 ≤ m ∧ m < 0xE000 then
          (join rest).map (Char.ofNat (0x10000 + (n - 0xD800) * 0x400 + (m - 0xDC00)) :: ·)
        else none
      | _ => none
    else if 0xDC00 ≤ n ∧ n < 0xE000 then none
    else (join rest).map (Char.ofNat n :: ·)

def string? (cs : List Char) : Option (Option String × List Char) :=
  (pieces (cs.length + 1) cs []).map fun (ps, rest) => ((join ps).map String.ofList, rest)

def digits (cs : List Char) : List Char × List Char := cs.span Char.isDigit

def fraction? (cs : List Char) : Option (Bool × List Char) := do
  let (real, cs) ← match cs with
    | '.' :: rest =>
      let (ds, rest) := digits rest
      if ds.isEmpty then none else some (true, rest)
    | _ => some (false, cs)
  match cs with
  | e :: rest =>
    if e = 'e' ∨ e = 'E' then
      let rest := match rest with
        | '+' :: r => r
        | '-' :: r => r
        | r => r
      let (ds, rest) := digits rest
      if ds.isEmpty then none else some (true, rest)
    else some (real, cs)
  | [] => some (real, cs)

def value (ds : List Char) : Nat := ds.foldl (fun n c => 10 * n + (c.toNat - '0'.toNat)) 0

def number? (negative : Bool) (cs : List Char) : Option (Number × List Char) := do
  let (ds, rest) := digits cs
  if ds.isEmpty || (ds.length > 1 && ds.head? = some '0') then none
  let (real, rest) ← fraction? rest
  if real then return (.other, rest)
  let n := value ds
  if negative then
    -- minus zero is not a whole number
    return (if n = 0 then .other else .whole (-n), rest)
  return (.whole n, rest)

mutual

/-- The value at the start of a text, and the text after it unless the value is faulty. -/
def value? : Nat → List Char → Json × Option (List Char)
  | 0, _ => (.broken, none)
  | fuel + 1, cs =>
    match skip cs with
    | '[' :: rest =>
      match skip rest with
      | ']' :: rest => (.array [] true, some rest)
      | rest => items fuel rest []
    | '\x7b' :: rest =>
      match skip rest with
      | '\x7d' :: rest => (.object [] true, some rest)
      | rest => fields fuel rest []
    | '"' :: rest =>
      match string? rest with
      | some (s, rest) => (.string s, some rest)
      | none => (.broken, none)
    | '-' :: rest =>
      match number? true rest with
      | some (n, rest) => (.number n, some rest)
      | none => (.broken, none)
    | 'n' :: rest => word .null (after? ['u', 'l', 'l'] rest)
    | 't' :: rest => word (.bool true) (after? ['r', 'u', 'e'] rest)
    | 'f' :: rest => word (.bool false) (after? ['a', 'l', 's', 'e'] rest)
    | rest =>
      match number? false rest with
      | some (n, rest) => (.number n, some rest)
      | none => (.broken, none)

def word (j : Json) : Option (List Char) → Json × Option (List Char)
  | some rest => (j, some rest)
  | none => (.broken, none)

def items : Nat → List Char → List Json → Json × Option (List Char)
  | 0, _, done => (.array done.reverse false, none)
  | fuel + 1, cs, done =>
    match value? fuel cs with
    | (j, none) => (.array (j :: done).reverse false, none)
    | (j, some rest) =>
      match skip rest with
      | ']' :: rest => (.array (j :: done).reverse true, some rest)
      | ',' :: rest => items fuel rest (j :: done)
      | _ => (.array (j :: done).reverse false, none)

def fields : Nat → List Char → List (Option String × Json) → Json × Option (List Char)
  | 0, _, done => (.object done.reverse false, none)
  | fuel + 1, cs, done =>
    match skip cs with
    | '"' :: rest =>
      match string? rest with
      | none => (.object done.reverse false, none)
      | some (k, rest) =>
        match skip rest with
        | ':' :: rest =>
          match value? fuel rest with
          | (j, none) => (.object ((k, j) :: done).reverse false, none)
          | (j, some rest) =>
            match skip rest with
            | '\x7d' :: rest => (.object ((k, j) :: done).reverse true, some rest)
            | ',' :: rest => fields fuel rest ((k, j) :: done)
            | _ => (.object ((k, j) :: done).reverse false, none)
        | _ => (.object ((k, .broken) :: done).reverse false, none)
    | _ => (.object done.reverse false, none)

end

end Voxel.Json.Reader

namespace Voxel.Json

def Document.ofText (s : String) : Document :=
  let cs := s.toList
  match Reader.value? (2 * cs.length + 2) cs with
  | (j, some rest) => ⟨j, (Reader.skip rest).isEmpty⟩
  | (j, none) => ⟨j, false⟩

end Voxel.Json
