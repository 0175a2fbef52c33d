import CurlScribe.Shell.Token
import CurlScribe.Target.Style
import CurlScribe.Url.Fault

/-!
# Errors

Every way in which a conversion can fail. Each constructor is a cause with the data that explains
it; `Error.message` is the only place that words one.
-/

namespace CurlScribe

/-- Two demands on the body of a request that cannot both be met. -/
inductive BodyConflict where
  /-- An upload of `path` beside the data or form option `flag`. -/
  | uploadWith (path : Word) (flag : Text)
  /-- Form fields, given by `flag`, that would have to go into the URL. -/
  | formInQuery (flag : Text)
  /-- The contents of a file that would have to go into the URL. -/
  | fileInQuery (path : Word)
  /-- Data read from a file beside other data. -/
  | fileWithData (flag : Text) (value : Word)
deriving DecidableEq, Repr

def BodyConflict.message : BodyConflict → Text
  | uploadWith path flag =>
    "-T ".toList ++ path.written ++ " cannot be combined with ".toList ++ flag
  | formInQuery flag => "-G cannot send ".toList ++ flag ++ " fields in the URL".toList
  | fileInQuery path =>
    "-G cannot put the contents of ".toList ++ path.written ++ " in the URL".toList
  | fileWithData flag value =>
    flag ++ " ".toList ++ value.written
      ++ " reads a file and cannot be combined with other data".toList

/-- Why the value of a flag cannot be used. -/
inductive ArgumentFault where
  | emptyMethod
  | dataFromStdin
  | fileToEncode (value : Word)
  | notNameValue (value : Word)
  | url (fault : Url.Fault)
  | urlWithoutHost
deriving DecidableEq, Repr

def ArgumentFault.message : ArgumentFault → Text
  | emptyMethod => "empty method".toList
  | dataFromStdin => "reading data from stdin is not supported".toList
  | fileToEncode value => "cannot encode the contents of a file: ".toList ++ value.written
  | notNameValue value => "expected name=value, got '".toList ++ value.written ++ "'".toList
  | url fault => fault.message
  | urlWithoutHost => "URL has no host".toList

/-- Something that a request asks for and a style cannot express. -/
inductive Feature where
  | variable (name : Text)
  | variableIn (word : Word)
  | multipartBody
  | fileBody (path : Word)
  | lineBreakInHeader (name : Text)
  | repeatedHeader (name : Word)
deriving DecidableEq, Repr

def Feature.message : Feature → Text
  | .variable name => "environment variable $".toList ++ name
  | variableIn word => "environment variable in ".toList ++ word.written
  | multipartBody => "multipart bodies".toList
  | fileBody path => "a body read from ".toList ++ path.written
  | lineBreakInHeader name => "line breaks in header ".toList ++ name
  | repeatedHeader name => "repeated header ".toList ++ name.written

/-- Why a file could not be read or written. -/
inductive FileFault where
  | notFound
  | exists
  | notDirectory
  | isDirectory
  | notText
  | nameTooLong
  | nulInPath
  /-- Any other refusal of the system, in its own words. -/
  | refused (message : Text)
deriving DecidableEq, Repr

def FileFault.message : FileFault → Text
  | notFound => "No such file or directory (os error 2)".toList
  | .exists => "File exists (os error 17)".toList
  | notDirectory => "Not a directory (os error 20)".toList
  | isDirectory => "Is a directory (os error 21)".toList
  | notText => "stream did not contain valid UTF-8".toList
  | nameTooLong => "File name too long (os error 36)".toList
  | nulInPath => "file name contained an unexpected NUL byte".toList
  | refused message => message

/-- Does the fault mean that there is nothing where the path leads? -/
def FileFault.isAbsence : FileFault → Bool
  | notFound => true
  | notDirectory => true
  | nameTooLong => true
  | nulInPath => true
  | _ => false

/-- Why the configuration cannot be used. -/
inductive ConfigFault where
  | unreadable (fault : FileFault)
  | invalid (reason : Text)
deriving DecidableEq, Repr

def ConfigFault.message : ConfigFault → Text
  | unreadable fault => "Failed to read config: ".toList ++ fault.message
  | invalid reason => "Invalid config TOML: ".toList ++ reason

/-- Why a conversion failed. -/
inductive Error where
  | malformed (e : Shell.SyntaxError)
  | unknownFlag (flag : Text)
  | missingArgument (flag : Text)
  | missingUrl
  | multipleUrls (first second : Word)
  | conflictingBody (conflict : BodyConflict)
  | invalidArgument (flag : Text) (fault : ArgumentFault)
  | unsupported (style : Style) (feature : Feature)
  | file (fault : FileFault)
  | config (fault : ConfigFault)
deriving DecidableEq, Repr

def Error.message : Error → Text
  | malformed e =>
    "Syntax error at byte ".toList ++ Text.ofNat e.position ++ ": ".toList ++ e.cause.message
  | unknownFlag flag => "Unknown flag: ".toList ++ flag
  | missingArgument flag => "Flag ".toList ++ flag ++ " requires an argument".toList
  | missingUrl => "No URL found in curl command".toList
  | multipleUrls first second =>
    "Multiple URLs found: '".toList ++ first.written ++ "' and '".toList ++ second.written
      ++ "'".toList
  | conflictingBody conflict => "Conflicting request body: ".toList ++ conflict.message
  | invalidArgument flag fault =>
    "Invalid value for ".toList ++ flag ++ ": ".toList ++ fault.message
  | unsupported style feature =>
    "The ".toList ++ style.name ++ " target does not support ".toList ++ feature.message
  | file fault => "IO error: ".toList ++ fault.message
  | config fault => "Config error: ".toList ++ fault.message

end CurlScribe
