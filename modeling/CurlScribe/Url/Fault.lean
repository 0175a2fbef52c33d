import CurlScribe.Text.Basic

/-!
# Faults of URLs
-/

namespace CurlScribe
namespace Url

/-- Why a text is no absolute URL. -/
inductive Fault where
  | emptyHost
  | invalidDomainName
  | invalidPort
  | invalidIpv4
  | invalidIpv6
  | invalidHostCharacter
  | noScheme
deriving DecidableEq, Repr, Inhabited

def Fault.message : Fault → Text
  | emptyHost => "empty host".toList
  | invalidDomainName => "invalid international domain name".toList
  | invalidPort => "invalid port number".toList
  | invalidIpv4 => "invalid IPv4 address".toList
  | invalidIpv6 => "invalid IPv6 address".toList
  | invalidHostCharacter => "invalid domain character".toList
  | noScheme => "relative URL without a base".toList

end Url
end CurlScribe
