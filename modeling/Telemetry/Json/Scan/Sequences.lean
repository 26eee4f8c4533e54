import Telemetry.Json.Scan.Strings

/-!
# Elements and members

What stands between the brackets of an array or the braces of an object, whatever is done with the
elements and members. A loop runs at most once for every character that is left: each element or
member after the first begins with a comma.
-/

namespace Telemetry.Json

/-- How a comma is reported that nothing follows: the bracket after it, the brace after it, and
the end of the text in an object. -/
structure Dangling where
  bracket : Cause
  brace : Cause
  ending : Cause

/-! ## Arrays -/

section
variable {α : Type} (item : Scan α) (dangling : Dangling)

def moreElements : Nat → Scan (List α)
  | 0, _ => .error (.past .eofList [])
  | limit + 1, text =>
    match skipBlanks text with
    | [] => .error (.past .eofList [])
    | ']' :: rest => .ok ([], rest)
    | ',' :: rest =>
      match skipBlanks rest with
      | [] => .error (.past .eofValue [])
      | ']' :: rest => .error (.past dangling.bracket (']' :: rest))
      | rest => do
        let (a, rest) ← item rest
        let (others, rest) ← moreElements limit rest
        return (a :: others, rest)
    | rest => .error (.past .expectedListEnd rest)

def elements (text : List Char) : Except Stop (List α × List Char) :=
  match skipBlanks text with
  | [] => .error (.past .eofList [])
  | ']' :: rest => .ok ([], rest)
  | text => do
    let (a, rest) ← item text
    let (others, rest) ← moreElements item dangling rest.length rest
    return (a :: others, rest)

end

/-! ## Objects -/

def colon (text : List Char) : Except Stop (List Char) :=
  match skipBlanks text with
  | [] => .error (.past .eofObject [])
  | ':' :: rest => .ok rest
  | rest => .error (.past .expectedColon rest)

section
variable {σ κ : Type} (key : Scan κ) (member : σ → κ → Scan σ) (dangling : Dangling)

def moreMembers : Nat → σ → Scan σ
  | 0, _, _ => .error (.past .eofObject [])
  | limit + 1, s, text =>
    match skipBlanks text with
    | [] => .error (.past .eofObject [])
    | '\x7d' :: rest => .ok (s, rest)
    | ',' :: rest =>
      match skipBlanks rest with
      | [] => .error (.past dangling.ending [])
      | '"' :: rest => do
        let (k, rest) ← key rest
        let (s, rest) ← member s k rest
        moreMembers limit s rest
      | '\x7d' :: rest => .error (.past dangling.brace ('\x7d' :: rest))
      | rest => .error (.past .keyNotString rest)
    | rest => .error (.past .expectedObjectEnd rest)

/-- Runs through the members behind an opening brace, up to and with the closing one: `key` reads
a key after its opening quote, `member` what follows the key. -/
def members (s : σ) (text : List Char) : Except Stop (σ × List Char) :=
  match skipBlanks text with
  | [] => .error (.past .eofObject [])
  | '\x7d' :: rest => .ok (s, rest)
  | '"' :: rest => do
    let (k, rest) ← key rest
    let (s, rest) ← member s k rest
    moreMembers key member dangling rest.length s rest
  | rest => .error (.past .keyNotString rest)

end

end Telemetry.Json
