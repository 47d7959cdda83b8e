import UtilityCss.Json.Scan
import UtilityCss.OrderedMap

/-!
Objects, arrays and whole values of strict JSON text.  Objects and arrays are read with a function for
their members, which carries a state along; values that are ignored are skipped with the open brackets
on a list, so that their nesting has no limit.
-/

namespace UtilityCss.Json

/-- A key behind the white space of an object, which may be ignored like a string. -/
def readKey (ignored : Bool) : Text → Read (Option Text)
  | '"' :: rest => (readStringBody ignored rest).map fun (key, after) => (some key, after)
  | [] => .error .truncated
  | _ => .error .malformed

/-- The next key of an object, or none at its end. -/
def nextKey (first : Bool) (text : Text) : Read (Option Text) :=
  match skipSpace text with
  | [] => .error .truncated
  | '\x7d' :: rest => .ok (none, rest)
  | ',' :: rest => if first then .error .malformed else readKey false (skipSpace rest)
  | other => if first then readKey false other else .error .malformed

/-- The colon behind a key. -/
def readColon (text : Text) : Except Fault Text :=
  match skipSpace text with
  | ':' :: rest => .ok rest
  | [] => .error .truncated
  | _ => .error .malformed

/-- The members of an object behind its opening brace.  Every member takes at least one character, so
`steps` needs to be no more than the length of the text. -/
def readMembers {σ : Type} (member : σ → Text → Text → Read σ) :
    (steps : Nat) → (first : Bool) → σ → Text → Read σ
  | 0, _, _, _ => .error .malformed
  | steps + 1, first, state, text =>
      match nextKey first text with
      | .ok (none, rest) => .ok (state, rest)
      | .ok (some key, rest) =>
          match member state key rest with
          | .ok (state, rest) => readMembers member steps false state rest
          | .error fault => .error fault
      | .error fault => .error fault

/-- An object behind its opening brace. -/
def readObject {σ : Type} (member : σ → Text → Text → Read σ) (state : σ) (text : Text) : Read σ :=
  readMembers member (text.length + 1) true state text

/-- Where the next element of an array starts; none at the closing bracket. -/
def nextElement (first : Bool) (text : Text) : Except Fault (Option Text) :=
  match skipSpace text with
  | [] => .error .truncated
  | ']' :: _ => .ok none
  | c :: rest =>
      if first then .ok (some (c :: rest))
      else if c ≠ ',' then .error .malformed
      else
        match skipSpace rest with
        | [] => .error .truncated
        | ']' :: _ => .error .malformed
        | other => .ok (some other)

/-- The closing bracket of an array. -/
def closeArray (text : Text) : Except Fault Text :=
  match skipSpace text with
  | ']' :: rest => .ok rest
  | [] => .error .truncated
  | _ => .error .malformed

/-- The elements of an array behind its opening bracket, with a bound on the steps as for objects. -/
def readElements {σ : Type} (element : σ → Text → Read σ) :
    (steps : Nat) → (first : Bool) → σ → Text → Read σ
  | 0, _, _, _ => .error .malformed
  | steps + 1, first, state, text =>
      match nextElement first text with
      | .ok none => (closeArray text).map fun rest => (state, rest)
      | .ok (some rest) =>
          match element state rest with
          | .ok (state, rest) => readElements element steps false state rest
          | .error fault => .error fault
      | .error fault => .error fault

/-- An array behind its opening bracket. -/
def readArray {σ : Type} (element : σ → Text → Read σ) (state : σ) (text : Text) : Read σ :=
  readElements element (text.length + 1) true state text

/-- Read a literal, a number or a string of any kind; a string is returned. -/
def readScalar (text : Text) : Read (Option Text) :=
  match text with
  | [] => .error .truncated
  | 'n' :: rest => (readWord "ull".toList rest).map fun after => (none, after)
  | 't' :: rest => (readWord "rue".toList rest).map fun after => (none, after)
  | 'f' :: rest => (readWord "alse".toList rest).map fun after => (none, after)
  | '"' :: rest => (readStringBody false rest).map fun (body, after) => (some body, after)
  | c :: _ =>
      if c = '-' || c.isDigit then (readNumber text).map fun (_, after) => (none, after)
      else .error .malformed

/-- The fault of a value of another shape than the one asked for.  A bracket shows it at once, and a
scalar when it has been read. -/
def mismatch (text : Text) : Fault :=
  match text with
  | '[' :: _ => .wrongShape
  | '\x7b' :: _ => .wrongShape
  | _ =>
      match readScalar text with
      | .ok _ => .wrongShape
      | .error fault => fault

/-- Read any value that is nested no deeper than `depth`; a string is returned. -/
def readAny (depth : Nat) (text : Text) : Read (Option Text) :=
  match skipSpace text with
  | '[' :: rest =>
      match depth with
      | 0 => .error .malformed
      | depth + 1 =>
          (readArray (fun () text => (readAny depth text).map fun (_, after) => ((), after)) ()
            rest).map fun (_, after) => (none, after)
  | '\x7b' :: rest =>
      match depth with
      | 0 => .error .malformed
      | depth + 1 =>
          (readObject
            (fun () _ text =>
              match readColon text with
              | .ok text => (readAny depth text).map fun (_, after) => ((), after)
              | .error fault => .error fault) () rest).map fun (_, after) => (none, after)
  | other => readScalar other

/-- A string value. -/
def readText (text : Text) : Read Text :=
  match skipSpace text with
  | '"' :: rest => readStringBody false rest
  | other => .error (mismatch other)

/-- A truth value. -/
def readBool (text : Text) : Read Bool :=
  match skipSpace text with
  | 't' :: rest => (readWord "rue".toList rest).map fun after => (true, after)
  | 'f' :: rest => (readWord "alse".toList rest).map fun after => (false, after)
  | other => .error (mismatch other)

/-- A word of 32 bits, or `null`. -/
def readOptionalWord (text : Text) : Read (Option UInt32) :=
  match skipSpace text with
  | 'n' :: rest => (readWord "ull".toList rest).map fun after => (none, after)
  | [] => .error .truncated
  | c :: rest =>
      if c = '-' || c.isDigit then
        match readNumber (c :: rest) with
        | .ok (number, after) =>
            if number.plain && number.digits < Nat.pow 2 32 then
              .ok (some (UInt32.ofNat number.digits), after)
            else .error .wrongShape
        | .error fault => .error fault
      else .error (mismatch (c :: rest))

/-- An object of strings; a later value of a key replaces an earlier one. -/
def readTextMap (text : Text) : Read (OrderedMap Text Text) :=
  match skipSpace text with
  | '\x7b' :: rest =>
      readObject
        (fun entries key text =>
          match readColon text with
          | .ok text =>
              (readText text).map fun (value, after) => (entries.insert key value, after)
          | .error fault => .error fault)
        .empty rest
  | other => .error (mismatch other)

/-- An open bracket around a value that is skipped. -/
inductive Bracket where
  | array
  | object
deriving DecidableEq, Repr

/-- What is expected next while a value is skipped. -/
inductive SkipPoint where
  | value
  | key
  | afterValue
deriving DecidableEq, Repr

/-- Skip one scalar. -/
def skipScalar (text : Text) : Except Fault Text :=
  match text with
  | '"' :: rest => (readStringBody true rest).map Prod.snd
  | c :: _ =>
      if c = '-' || c.isDigit then skipNumber text else (readScalar text).map Prod.snd
  | [] => .error .truncated

/-- Skip the rest of a value inside open brackets, the innermost first.  Every step takes at least one
character or is the last. -/
def skipWithin : (steps : Nat) → SkipPoint → List Bracket → Text → Except Fault Text
  | 0, _, _, _ => .error .malformed
  | _ + 1, .afterValue, [], text => .ok text
  | steps + 1, .afterValue, bracket :: open', text =>
      match bracket, skipSpace text with
      | _, [] => .error .truncated
      | .array, ',' :: rest => skipWithin steps .value (.array :: open') rest
      | .object, ',' :: rest => skipWithin steps .key (.object :: open') rest
      | .array, ']' :: rest => skipWithin steps .afterValue open' rest
      | .object, '\x7d' :: rest => skipWithin steps .afterValue open' rest
      | _, _ => .error .malformed
  | steps + 1, .key, brackets, text =>
      match readKey true (skipSpace text) with
      | .ok (_, rest) =>
          match readColon rest with
          | .ok rest => skipWithin steps .value brackets rest
          | .error fault => .error fault
      | .error fault => .error fault
  | steps + 1, .value, brackets, text =>
      match skipSpace text with
      | '[' :: rest =>
          match skipSpace rest with
          | [] => .error .truncated
          | ']' :: after => skipWithin steps .afterValue brackets after
          | other => skipWithin steps .value (.array :: brackets) other
      | '\x7b' :: rest =>
          match skipSpace rest with
          | [] => .error .truncated
          | '\x7d' :: after => skipWithin steps .afterValue brackets after
          | other => skipWithin steps .key (.object :: brackets) other
      | other =>
          match skipScalar other with
          | .ok rest => skipWithin steps .afterValue brackets rest
          | .error fault => .error fault

/-- Skip a value of any shape and depth. -/
def skipValue (text : Text) : Except Fault Text :=
  skipWithin (2 * text.length + 2) .value [] text

end UtilityCss.Json
