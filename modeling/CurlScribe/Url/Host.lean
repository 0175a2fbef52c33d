import CurlScribe.Encoding.Percent
import CurlScribe.Url.Domain
import CurlScribe.Url.Fault
import CurlScribe.Url.Ipv4
import CurlScribe.Url.Ipv6
import CurlScribe.Url.Path

/-!
# Hosts of URLs
-/

namespace CurlScribe
namespace Url

/-- The host of a URL. -/
inductive Host where
  | domain (name : Text)
  | ipv4 (address : Nat)
  | ipv6 (pieces : List Nat)
deriving DecidableEq, Repr

namespace Host

/-- The host as it stands in a URL. -/
def text : Host → Text
  | domain name => name
  | ipv4 address => Ipv4.text address
  | ipv6 pieces => Ipv6.text pieces

/-- The address between the brackets that a host begins and must end with. -/
def ofBrackets (t : Text) : Except Fault Host :=
  if t.getLast? == some ']' then
    match Ipv6.ofText? (t.drop 1).dropLast with
    | some pieces => .ok (.ipv6 pieces)
    | none => .error .invalidIpv6
  else .error .invalidIpv6

/-- The host that a text names in the schemes of the web: an address, or a domain, which may be
percent-encoded and may contain letters of any script. -/
def ofText (t : Text) : Except Fault Host :=
  if t.head? == some '[' then ofBrackets t
  else match Domain.toAscii? (Percent.decode t) with
    | none => .error .invalidDomainName
    | some [] => .error .emptyHost
    | some name =>
      if Ipv4.endsInNumber name then
        match Ipv4.ofDomain? name with
        | some address => .ok (.ipv4 address)
        | none => .error .invalidIpv4
      else .ok (.domain name)

/-- A character that a host may not contain in any scheme. -/
def isForbidden (c : Char) : Bool := c == '\x00' || "\t\n\r #/:<>?@[\\]^|".toList.contains c

/-- The host that a text names in other schemes, where a domain is not looked into. -/
def ofOpaque (t : Text) : Except Fault Host :=
  if t.head? == some '[' then ofBrackets t
  else if t.any isForbidden then .error .invalidHostCharacter
  else .ok (.domain (Percent.encode keptOpaque t))

end Host
end Url
end CurlScribe
