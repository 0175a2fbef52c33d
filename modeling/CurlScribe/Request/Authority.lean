import CurlScribe.Encoding.Percent
import CurlScribe.Request.Basic
import CurlScribe.Word.Cut

/-!
# The front of a URL

A URL that begins with literal text and names no scheme gets `http://`. Credentials in the
authority, the part between `//` and the next `/`, `?` or `#`, are taken out of the URL; an `@`
further on is none of their business.
-/

namespace CurlScribe
namespace Authority

/-- The URL with the default scheme in front if it names none. -/
def withScheme (url : Word) : Word :=
  match url.parts with
  | .text _ :: _ =>
    if Text.hasInfix "://".toList (url.shape []) then url else Word.ofString "http://" ++ url
  | _ => url

/-- The characters that end the authority. -/
def ends : List Char := ['/', '?', '#']

/-- What precedes the first `c`, or the whole word if there is none. -/
def before (c : Char) (w : Word) : Word :=
  match w.splitOnce c with
  | some (head, _) => head
  | none => w

/-- The authority that `rest` begins with: what precedes the characters that end it, cut off at one
of them after another. -/
def authorityOf (rest : Word) : Word := ends.foldl (fun authority c => before c authority) rest

/-- What follows the `n`-th `@`. -/
def pastAts : Nat → Word → Option Word
  | 0, w => some w
  | n + 1, w => (w.splitOnce '@').bind fun (_, after) => pastAts n after

/-- The credentials that user information stands for, each percent-encoded: the user before the
first `:` and the password after it. -/
def credentialsOf (userinfo : Word) : Credentials :=
  let (user, password) := (userinfo.splitOnce ':').getD (userinfo, Word.empty)
  ⟨user.mapText Percent.decode, password.mapText Percent.decode⟩

/-- The credentials in the URL, if there are any, and the URL without them. The user information is
what precedes the last `@` of the authority, and the host follows as many `@` as there are up to
that one. -/
def takeCredentials (url : Word) : Option (Credentials × Word) :=
  match url.splitOnce ':' with
  | none => none
  | some (scheme, hier) =>
    match (hier.dropLeading? '/').bind (Word.dropLeading? '/') with
    | none => none
    | some rest =>
      match (authorityOf rest).splitOnceLast '@' with
      | none => none
      | some (userinfo, _) =>
        (pastAts (userinfo.split '@').length rest).map fun host =>
          (credentialsOf userinfo, scheme.pushText "://".toList ++ host)

end Authority
end CurlScribe
