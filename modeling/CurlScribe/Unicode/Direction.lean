import CurlScribe.Unicode.Packed

/-!
# Directions

The part that a character takes when text of both directions is laid out.
-/

namespace CurlScribe
namespace Unicode

/-- The bidirectional class of a character, as far as the rules for domain names tell classes
apart. -/
inductive Direction where
  | leftToRight
  | rightToLeft
  | arabicLetter
  | europeanNumber
  | europeanSeparator
  | europeanTerminator
  | arabicNumber
  | commonSeparator
  | nonspacingMark
  | boundaryNeutral
  | otherNeutral
  /-- Separators, white space and explicit formatting. -/
  | formatting
deriving DecidableEq, Repr, Inhabited

/-- The class with a number. -/
def Direction.ofCode : Nat → Direction
  | 0 => leftToRight
  | 1 => rightToLeft
  | 2 => arabicLetter
  | 3 => europeanNumber
  | 4 => europeanSeparator
  | 5 => europeanTerminator
  | 6 => arabicNumber
  | 7 => commonSeparator
  | 8 => nonspacingMark
  | 9 => boundaryNeutral
  | 10 => otherNeutral
  | _ => formatting

/-- The bidirectional classes in runs. -/
def directionRuns : List Nat := unpack [
  "JJFLOJFLCKDFFKBEBHBECHKDBHGKaAGKaAEKGJBLaJBHBKEFEKBACKBJCKCFCDBKBADKBDBAFKXABKfABKuBACKHAOKC",
  "AOKFAJKBARKjQIEACKIABKFACKBABKjOABKkMAHIoAABKCACKBFBBhNIBBBIBBCIBBCIBBBIBBCIhVBGGCKBCCFBCBHB",
  "CCKLIhQCVIKGBFCGDCBIjFCHIBGBKGICCCIBKEICCKDXCBIeCbIibCLIPChLBJICBEKDBBIYBEIBBJIBBDIBBFIhLBDI",
  "EBhQCCGFCJIhKCYIBGhAIhXABIBABIEAIIEABIDAHIKACIdABIhaABIEAEIIABIUACIOACFHABFCABICACIhZABIEACI",
  "EACICADIDABIeACIDABILACIhZABIEAFIBACIEABIUACINABFIAGIBABIhaABICABIBAEIIABIHACILACIeABIhdABIM",
  "ABIhFAGKBFBKFABIDABIhXABIBADIFADIBAEIHACILACIUAHKCABIhaABIPACIUACIcACIhZACIEAEIIABIUACIdABIi",
  "IABIHADIBABIiaABICAHIEABFHAIIjCABICAJILAHIiJACIbABIBABIBABIEKhTAOIBAFIBACIFALIBAhEIJABIjGAEI",
  "BAGIBACICACIZACIEADIQAEINABICACIGABIPABI1fADIhQAKKjGABKzfABLaACKjVADIdACIeACIeACIiAACIBAHIIA",
  "BICALIHABFBABISAKKGALKDIBJBIjVACIhCABIjWADIEACIJABIGADIEABKDACKkYAhCKXACICABIhaABIBAHIBABIBA",
  "BICAIIGAKICABIhQAhOICAMIUAEIhQABIBAEIIABIhIAJIMACIhAAEICACIBADIhYABIBACIDABIBADIhaAIICACIkYA",
  "DIBANIBAHIEABIGABIDACImGAiAItdABKBADKLADKNADKNADKNACKBALLDJBABBYKHLBHFFPKBHaKBLGJELGJBDDAGDC",
  "EDKBAKDCEDKRAhQFhBIPACKBAEKBACKKABKBADKFAGKBABKBABKBABKEABFLACKEAFKFAEKCAQKhJADKEAkCKBEBFpCK",
  "iFAaKBAkUKWALKVAhIKUDiOAuCKBAqTKoAAzUKCAkKKnFAGKEADIHAHKjfABIjAAhAIieKhCAaKBAiZKMAmWKaAQKBLE",
  "KDAZKJAEICABKFACKFADKiZACICKDABKiaABKmEAhGKJABKhNACKhRAQKcADKhSAPKMAEKlHAEKjDACKfABKmuAAiAK1",
  "0QAhXKqGADKifAEIBKKICKeACIiQACIOAhCKjGABKjZABIDABIEABIZACIBAEKBILACFhaAEKiMACIaASINABIhGAIIZ",
  "ALIhOADIhQABICAEICACIhHABIiDAGICACICACIMABIIABIhPABIhTABIBADICACIFACIBABIhKACIIABIjTACKjZABI",
  "CABIEABIz5PABBBIKBBEhGBjTCQKrLCSKiACCKhWCIKhAJNCDKQIKKGAQIhAKBHBKBHBABKBHJKBFCKCEDKBABKCFBKE",
  "AkPCBJBACKDFFKBEBHBECHKDBHGKaAGKaALKjaACFDKCFBAHKBAJJFKCJoBABKheAiNKDANKDABKicABInCABIbDjaAF",
  "IhkFAofBBKnBBDIBBCIFBEIhIBDIEBBIlFBCIiSBHKuABhECEIICKGGCKGfBFIBKnRBfGhMBCITBRCIKcCLIhQBWCLIf",
  "CSBEIjaBBABIhWAPILAUKKABICACIKADIhRAEICACIHABIhdADIhEAFIBAIIheABIMACIhUAJIKAEICABIifADICABIB",
  "ACIGABICABIkdABIDAIIVACIhZACIDABIhFAHIDAFIiGAGINABIBABIBABIOACIiVAIICADIBABIXABIiUAGIBABIEAC",
  "IBACInOAEIGACIBACIbACIiVAIICABIBACIfANKheABIBABICAGIBABIjFABIBABICAEIBAFIoDAJIBACIoAACIBABIE",
  "ABIkQAEICACIEABIhAAGICACIhIAGICAEIIABIJAGICADIhOANIBACImGABIBADIBABImJAHIBAGIiUAWICAHIBACIBA",
  "CIjaAGIDABIBACIBAHIBABIiIACIDABIBABIqbACILACIhUAFIFABIBABIXABIjaAIKEFRKliOABIGAPIrmIAMIDADIi",
  "uAAFIhbAHIhgYABIhfAEIiPABKBABIzlYACIBAEJj6cAnQKKDDKDAtUKGAXKPARKPAhOICAXIxAADIJAIJIICAHIeAEI",
  "hbACKVAiCKDIBKlaAiXK8EABKhZABKhZABKhZABKhZABKKAhSDwAAhXIEAhSIIABIOABIWAFIBAPIhqQAHIBARICAHIB",
  "ACIBAFIjEABIlAAHIrXABIhdAEIPABFvMAEIneACInTABICABIHACIFABIoKAmQBHIjNBHI5FBiQCiABiQClQBnQCCKO",
  "CoABhMKEAjEKMAPKCAPKBAPKBAhFKKALDFKfABKhaAGKhdABKlSAGKkaA+aKCARKDANKDAmaKGAMKEABKPAMKEAhYKIA",
  "KKGAhIKIAeKCAMKEACKOAJKhHAqYKIAOKCANKDAiHKBABKEARKBANKDAMKFAkTKBAicKKDBKhgDACJh--eACJh--eACJ",
  "h--eACJh--eACJh--eACJh--eACJh--eACJh--eACJh--eACJh--eACJh--eACJh--eAoCJnQIjwQJh7-eACJh--eACJ",
  "h--eACJ"]

/-- The bidirectional class of a character. -/
def direction (c : Char) : Direction := Direction.ofCode (valueInRuns directionRuns c.toNat)

end Unicode
end CurlScribe
