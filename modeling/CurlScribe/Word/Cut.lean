import CurlScribe.Word.Basic

/-!
# Cutting and trimming words

Words are cut at literal characters only; what a reference stands for is unknown. Trimming removes
literal blanks and stops at a reference.
-/

namespace CurlScribe
namespace WordPart

/-- The parts before and after the first literal character that satisfies `p`. -/
def splitFirst (p : Char → Bool) : List WordPart → Option (List WordPart × List WordPart)
  | [] => none
  | .text t :: rest =>
    match Text.splitFirst p t with
    | some (before, after) => some (ofText before, ofText after ++ rest)
    | none => (splitFirst p rest).map fun (head, tail) => (.text t :: head, tail)
  | .reference r :: rest =>
    (splitFirst p rest).map fun (head, tail) => (.reference r :: head, tail)

/-- The parts before and after the last literal character that satisfies `p`. -/
def splitLast (p : Char → Bool) : List WordPart → Option (List WordPart × List WordPart)
  | [] => none
  | .text t :: rest =>
    match splitLast p rest with
    | some (head, tail) => some (.text t :: head, tail)
    | none => (Text.splitLast p t).map fun (before, after) => (ofText before, ofText after ++ rest)
  | .reference r :: rest =>
    (splitLast p rest).map fun (head, tail) => (.reference r :: head, tail)

/-- Pieces of a text in front of the pieces `first :: more` of what follows it: the last piece of
the text and the first that follows are one piece. -/
def joinPieces (first : List WordPart) (more : List (List WordPart)) :
    List Text → List WordPart × List (List WordPart)
  | [] => (first, more)
  | [last] => (ofText last ++ first, more)
  | t :: ts =>
    let (next, others) := joinPieces first more ts
    (ofText t, next :: others)

/-- The first piece and the remaining pieces of parts cut at every literal character that
satisfies `p`. -/
def cutAll (p : Char → Bool) : List WordPart → List WordPart × List (List WordPart)
  | [] => ([], [])
  | .text t :: rest =>
    let (first, more) := cutAll p rest
    joinPieces first more (Text.split p t)
  | .reference r :: rest =>
    let (first, more) := cutAll p rest
    (.reference r :: first, more)

/-- Literal blanks removed from the start. -/
def trimStart : List WordPart → List WordPart
  | .text t :: rest =>
    match Text.trimStart t with
    | [] => trimStart rest
    | kept => .text kept :: rest
  | parts => parts

/-- Literal blanks removed from the end. -/
def trimEnd : List WordPart → List WordPart
  | [] => []
  | .text t :: rest =>
    match trimEnd rest with
    | [] => ofText (Text.trimEnd t)
    | kept => .text t :: kept
  | .reference r :: rest => .reference r :: trimEnd rest

end WordPart

namespace Word

/-! ## Cutting -/

/-- The words before and after the first literal character that satisfies `p`. -/
def splitWhere (p : Char → Bool) (w : Word) : Option (Word × Word) :=
  (WordPart.splitFirst p w.parts).map fun (head, tail) => (⟨head⟩, ⟨tail⟩)

/-- The words before and after the first literal `c`. -/
def splitOnce (c : Char) (w : Word) : Option (Word × Word) := w.splitWhere (· == c)

/-- The words before and after the last literal character that satisfies `p`. -/
def splitLastWhere (p : Char → Bool) (w : Word) : Option (Word × Word) :=
  (WordPart.splitLast p w.parts).map fun (head, tail) => (⟨head⟩, ⟨tail⟩)

/-- The words before and after the last literal `c`. -/
def splitOnceLast (c : Char) (w : Word) : Option (Word × Word) := w.splitLastWhere (· == c)

/-- The pieces between the literal occurrences of `c`. -/
def split (c : Char) (w : Word) : List Word :=
  let (first, more) := WordPart.cutAll (· == c) w.parts
  (first :: more).map Word.mk

/-- What follows a leading literal `c`. -/
def dropLeading? (c : Char) (w : Word) : Option Word :=
  match w.parts with
  | .text (d :: t) :: rest => if d == c then some ⟨WordPart.ofText t ++ rest⟩ else none
  | _ => none

/-- What precedes a trailing literal `c`. -/
def dropTrailing? (c : Char) (w : Word) : Option Word :=
  match w.parts.getLast? with
  | some (.text t) =>
    if t.getLast? == some c then some ⟨w.parts.dropLast ++ WordPart.ofText t.dropLast⟩ else none
  | _ => none

/-- The word without the first `n` bytes of its leading text. -/
def dropBytes (n : Nat) (w : Word) : Word :=
  match w.parts with
  | .text t :: rest => ⟨WordPart.ofText (Text.dropBytes n t) ++ rest⟩
  | parts => ⟨parts⟩

/-- What follows the last literal `/` or `\`; the whole word if there is none. -/
def basename (w : Word) : Word :=
  match w.splitLastWhere (fun c => c == '/' || c == '\\') with
  | some (_, tail) => tail
  | none => w

/-! ## Trimming -/

/-- Literal blanks removed from the start. -/
def trimStart (w : Word) : Word := ⟨WordPart.trimStart w.parts⟩

/-- Literal blanks removed from the end. -/
def trimEnd (w : Word) : Word := ⟨WordPart.trimEnd w.parts⟩

/-- Literal blanks removed from both ends. -/
def trim (w : Word) : Word := w.trimStart.trimEnd

end Word
end CurlScribe
