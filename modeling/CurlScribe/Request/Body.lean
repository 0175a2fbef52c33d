import CurlScribe.Http.MediaType
import CurlScribe.Word.Cut

/-!
# Request bodies
-/

namespace CurlScribe

/-- One part of a form-data body. -/
inductive FormPart where
  /-- A value given in the command. -/
  | field (name value : Word)
  /-- The contents of the file `path`, attached under the name `filename`. -/
  | file (name filename path : Word)
  /-- The contents of the file `path` as a plain value. -/
  | fileContent (name path : Word)
deriving DecidableEq, Repr, Inhabited

namespace FormPart

def name : FormPart → Word
  | field name _ => name
  | file name _ _ => name
  | fileContent name _ => name

/-- The file that has to be read for the part. -/
def path? : FormPart → Option Word
  | field _ _ => none
  | file _ _ path => some path
  | fileContent _ path => some path

/-- All words of the part. -/
def words : FormPart → List Word
  | field name value => [name, value]
  | file name filename path => [name, filename, path]
  | fileContent name path => [name, path]

/-- Is the file name the last segment of the path, wherever the program runs? A path with
backslashes is cut at different places on different systems. -/
def isNamedByPath (filename path : Word) : Bool :=
  filename == path.basename && !path.contains '\\'

end FormPart

/-- The body of a request. -/
inductive Body where
  | empty
  /-- Text of the given content type. -/
  | raw (content contentType : Word)
  /-- Encoded `key=value` pairs in order. -/
  | urlEncoded (pairs : List (Word × Word))
  | multipart (parts : List FormPart)
  /-- The contents of a file. -/
  | file (path : Word) (contentType : Option Word)
deriving DecidableEq, Repr, Inhabited

namespace Body

def isEmpty : Body → Bool
  | empty => true
  | _ => false

/-- The content type that the body itself implies. A multipart body implies none, since its type
names a boundary that only the sending program chooses. -/
def contentType? : Body → Option Word
  | empty => none
  | raw _ contentType => some contentType
  | urlEncoded _ => some (Word.ofText MediaType.formUrlEncoded)
  | multipart _ => none
  | file _ contentType => contentType

/-- A pair as `key=value`. -/
def encodedPair (pair : Word × Word) : Word := pair.1.pushChar '=' ++ pair.2

/-- Pairs as `key=value` texts with `&` between them. -/
def encoded : List (Word × Word) → Word
  | [] => Word.empty
  | [pair] => encodedPair pair
  | pair :: rest => (encodedPair pair).pushChar '&' ++ encoded rest

/-- All words of the body. -/
def words : Body → List Word
  | empty => []
  | raw content contentType => [content, contentType]
  | urlEncoded pairs => pairs.flatMap fun (key, value) => [key, value]
  | multipart parts => parts.flatMap FormPart.words
  | file path contentType => path :: contentType.toList

end Body
end CurlScribe
