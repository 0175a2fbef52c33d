import CurlScribe.Encoding.Percent
import CurlScribe.Flag.Basic
import CurlScribe.Outcome
import CurlScribe.Request.Body
import CurlScribe.Word.Cut

/-!
# Payload

What the data and form options of a command add up to. Form fields win over data. Data is joined in
the order given; it becomes pairs if its content type is that of form data and it has the shape of
form data, and text otherwise.
-/

namespace CurlScribe

/-- A data option: how its value is read, the option as written, and the value. -/
structure DataItem where
  kind : DataKind
  flag : Text
  value : Word
deriving DecidableEq, Repr

/-- A form option: the option as written, its value, and whether `@` and `<` are ordinary
characters in it. -/
structure FormItem where
  flag : Text
  value : Word
  isLiteral : Bool
deriving DecidableEq, Repr

/-- What data options add up to. -/
inductive DataContent where
  | text (content : Word)
  /-- The contents of a file. -/
  | file (path : Word)
deriving DecidableEq, Repr

/-! ## Form encoding -/

namespace FormEncoding

/-- The characters that encoding leaves as they are. -/
def isUnreserved (c : Char) : Bool := c.isAlphanum || c == '-' || c == '.' || c == '_' || c == '~'

/-- A character in form encoding: a space as `+`, other reserved characters as escaped bytes. -/
def encodeChar (c : Char) : Text := if c == ' ' then ['+'] else Percent.escapeChar isUnreserved c

/-- Text in form encoding. -/
def encode (t : Text) : Text := t.flatMap encodeChar

/-- A word with its literal text in form encoding. -/
def encodeWord (w : Word) : Word := w.mapText encode

/-- A character of a key that needs no encoding. -/
def isKeyChar (c : Char) : Bool := c.isAlphanum || "_.~%+-[]".toList.contains c

/-- A character of a value. -/
def isValueChar (c : Char) : Bool := c != '&' && c != '\r' && c != '\n'

/-- Is the text a key, `=` and a value? The key is not empty. -/
def isPair (t : Text) : Bool :=
  match Text.splitFirst (· == '=') t with
  | some (key, value) => !key.isEmpty && key.all isKeyChar && value.all isValueChar
  | none => false

/-- Is the text a row of pairs with `&` between them? -/
def isPairs (t : Text) : Bool := (Text.split (· == '&') t).all isPair

end FormEncoding

/-! ## Data options -/

namespace DataItem

/-- The content of a value that is to be encoded: the content alone, `=content` or
`name=content`. -/
def encodedContent (item : DataItem) : Except Error Word :=
  match item.value.splitOnce '=' with
  | some (name, content) =>
    let content := FormEncoding.encodeWord content
    .ok (if name.isEmpty then content else name.pushChar '=' ++ content)
  | none =>
    if item.value.contains '@' then
      .error (.invalidArgument item.flag (.fileToEncode item.value))
    else .ok (FormEncoding.encodeWord item.value)

/-- The content of a value that may name a file by `@path`. -/
def plainContent (item : DataItem) : Except Error DataContent :=
  match item.value.dropLeading? '@' with
  | none => .ok (.text item.value)
  | some path =>
    if path.isText "-".toList then .error (.invalidArgument item.flag .dataFromStdin)
    else .ok (.file path)

/-- What one data option stands for. -/
def content (item : DataItem) : Except Error DataContent :=
  match item.kind with
  | .raw => .ok (.text item.value)
  | .urlEncode => item.encodedContent.map .text
  | .ascii => item.plainContent
  | .binary => item.plainContent
  | .json => item.plainContent

/-- What stands between the data of two neighbouring options. -/
def separator (before after : DataKind) : Text :=
  if before = .json ∧ after = .json then [] else ['&']

/-- The text of data options joined behind `joined`, the last of which was of kind `previous`. A
file cannot be joined to anything. -/
def joinText (joined : Word) (previous : Option DataKind) : List DataItem → Except Error Word
  | [] => .ok joined
  | item :: rest =>
    match item.content with
    | .error e => .error e
    | .ok (.file _) => .error (.conflictingBody (.fileWithData item.flag item.value))
    | .ok (.text value) =>
      let joined := match previous with
        | none => joined
        | some kind => joined.pushText (separator kind item.kind)
      joinText (joined ++ value) (some item.kind) rest

/-- What data options add up to: a file if there is one option and it names a file, else their
texts in order. -/
def join (items : List DataItem) : Except Error DataContent :=
  match items with
  | [item] => item.content
  | items => (joinText Word.empty none items).map .text

end DataItem

/-! ## Form options -/

namespace FormItem

/-- The part of a file specification that follows its path: the file name that it sets last, and
the warnings for what cannot be kept. -/
def readModifiers (flag : Text) (path : Word) : List Word → Option Word × List Warning
  | [] => (none, [])
  | modifier :: rest =>
    let (later, warnings) := readModifiers flag path rest
    match modifier.splitOnce '=' with
    | some (key, value) =>
      if key.isTextIgnoringCase "filename".toList then (later.or (some value), warnings)
      else if key.isTextIgnoringCase "type".toList then
        (later, .ofFlag flag ("content type of ".toList ++ path.written ++ " is not set: ".toList
          ++ modifier.written) :: warnings)
      else (later, .ofFlag flag ("unsupported form modifier ignored: ".toList ++ modifier.written)
          :: warnings)
    | none =>
      (later, .ofFlag flag ("unsupported form modifier ignored: ".toList ++ modifier.written)
        :: warnings)

/-- The path, the file name and the warnings of a specification `path;filename=name;…`. -/
def readFile (flag : Text) (spec : Word) : Word × Option Word × List Warning :=
  match spec.split ';' with
  | [] => (Word.empty, none, [])
  | path :: modifiers => (path, readModifiers flag path modifiers)

/-- The part of the body that a form option stands for. -/
def part (item : FormItem) : Outcome FormPart :=
  match item.value.splitOnce '=' with
  | none => .fail (.invalidArgument item.flag (.notNameValue item.value))
  | some (name, value) =>
    if item.isLiteral then .ok (.field name value)
    else match value.dropLeading? '@' with
      | some spec =>
        let (path, filename, warnings) := readFile item.flag spec
        ⟨.ok (.file name (filename.getD path.basename) path), warnings⟩
      | none =>
        match value.dropLeading? '<' with
        | some spec =>
          let (path, filename, warnings) := readFile item.flag spec
          let unused := if filename.isSome then
            [Warning.ofFlag item.flag "filename= has no effect on a field read from a file".toList]
            else []
          ⟨.ok (.fileContent name path), warnings ++ unused⟩
        | none => .ok (.field name value)

end FormItem

/-! ## The body -/

namespace Body

/-- The warnings for data that is dropped because there are form fields. -/
def droppedData (data : List DataItem) : List Warning :=
  data.map fun item => .ofFlag item.flag "ignored because the request has form fields".toList

/-- The content type that data is sent with if the command gives none. -/
def defaultContentType (data : List DataItem) : Text :=
  if data.any fun item => item.kind == .json then MediaType.json else MediaType.formUrlEncoded

/-- The pairs of text that has the shape of form data. -/
def pairsOf (content : Word) : List (Word × Word) :=
  (content.split '&').filterMap fun pair => pair.splitOnce '='

/-- The body of text that is sent with the given content type. -/
def ofText (content contentType : Word) : Body :=
  let isForm := match contentType.literal? with
    | some t => MediaType.isFormUrlEncoded t
    | none => false
  if isForm && FormEncoding.isPairs (content.shape ['x']) then .urlEncoded (pairsOf content)
  else .raw content contentType

/-- The body of data that is sent with the given content type. -/
def ofContent (contentType : Word) : DataContent → Body
  | .file path => .file path (some contentType)
  | .text content => ofText content contentType

/-- The body that data options stand for. -/
def ofData (data : List DataItem) (explicitContentType : Option Word) : Except Error Body :=
  if data.isEmpty then .ok .empty
  else (DataItem.join data).map
    (ofContent (explicitContentType.getD (Word.ofText (defaultContentType data))))

/-- The body that data and form options stand for, given the content type that the command sets. -/
def classify (data : List DataItem) (forms : List FormItem) (explicitContentType : Option Word) :
    Outcome Body :=
  if forms.isEmpty then .ofExcept (ofData data explicitContentType)
  else
    (Outcome.warn (droppedData data)).andThen fun _ =>
      (Outcome.forAll FormItem.part forms).andThen fun parts => .ok (.multipart parts)

end Body
end CurlScribe
