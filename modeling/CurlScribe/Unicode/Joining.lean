import CurlScribe.Unicode.Packed

/-!
# Joining types

In a cursive script a letter may join the one before it, the one after it, or both.
-/

namespace CurlScribe
namespace Unicode

/-- How a character joins its neighbours in a cursive script. -/
inductive JoiningType where
  | never
  | left
  | right
  | dual
  | transparent
  | causing
deriving DecidableEq, Repr, Inhabited

/-- The joining type with a number. -/
def JoiningType.ofCode : Nat → JoiningType
  | 1 => left
  | 2 => right
  | 3 => dual
  | 4 => transparent
  | 5 => causing
  | _ => never

/-- The joining types in runs. -/
def joiningRuns : List Nat := unpack [
  "lNABEySAjQEoTAHEoHAhNEBABEBACEBACEBABEiIALEBABEDABDBAECBDBCBDBCFDECNDBFHDBCCDVEOACDBEDCBADCQ",
  "DSChGDBCCDJCBDBCBDBCCDCCBABCHECAGECACEBAEECCKADDCABDPABEBCBEDDFCEDBCJDBCBDBCBDBCCDBCbECABCLD",
  "DCPDCCEDBCBDCCDDCCGDhGALEZAhBDJEGABFCABEYAEEBAJEBADEBAFESABCFDCCBDBCKDBCBDDCDEEABDBAEDBABCBD",
  "CCFATCDFBDCAFDBCBDHAJEKDDCBABCCDCCGDBCPDBAYEBAhAEhXABEBABEEAIEEABEDAHEKACEdABEhaABEEAEEIABEU",
  "ACEaABECACEhZABEEACEEACECADEDABEeACEDABELACEhZABEEAFEBACEEABEUACEWAGEBABEhaABECABEBAEEIABEHA",
  "CELACEeABEhdABEMABEhSABEDABEhXABEBADEFADEBAEEHACELACEdABEhaABECABEGABEFACEUACEcACEhZACEEAEEI",
  "ABEUACEdABEiIABEHADEBABEiaABECAHEMAIEjCABECAJELAHEiJACEbABEBABEBABEhXAOEBAFEBACEFALEBAhEEJAB",
  "EjGAEEBAGEBACECACEZACEEADEQAEENABECACEGABEPABE1fADE9SADEdACEeACEeACEiAACEBAHEIABECALEJABEhJA",
  "BDCABFDEBABEQAiZDMACEhCDBEBDjVADEEACEJABEGADEmbACECABEhaABEBAHEBABEBABECAIEGAKECABEhQAhOECAM",
  "EUAEEhQABEBAFEBABEFABEhIAJEMACEhAAEECACEBADEhYABEBACEDABEBADEhaAIECACEkYADEBANEBAHEEABEGABED",
  "ACEmGAiAEwLABEBABFCEaAFEhRAFEFAGEjAAhBEi-eADEkNABEjAAhAExKAEEjLACE9uUAEEBAKEhAACEiQACEoQABED",
  "ABEEABEZACEFABETAhSDBBiRACEaASENABEhGAIEZALEhOADEhQABECAEECACEhHABEiDAGECACECACEMABEIABEhPAB",
  "EhTABEBADECACEFACEBABEhKACEIABEnOABECABEEABEz5QABE3BAQEQAQEmPABEnZADEwBABEnCABEkVAFEh0GADEBA",
  "CEFAEEhIADEEABEkAAFDBCBABCBACCCABBFCEDBBFDBCDDBCCABCCEEAEDBCkQABDBCBDDCDDBCCDBCBDCCBDBCXAECC",
  "DqRABBhBDBCBDEEiBAFEpdACEVABCCDBACDhSAGEhQADDBCRDBALEDDBCbAEDCCMDEEhKABDBACDDCBABDCCCDBCCDBA",
  "BDCCBDEABCBDBBhVABEhWAPEhJABECACEKADEhRAEECACEHABEhdADEhEAFEBAIEheABEMACEhUAJEKAEECABEifADEC",
  "ABEBACEGABECABEkdABEDAIEVACEhZACEDABEhFAHEDAFEiGAGENABEBABEBABEOACEiVAIECADEBABEXABEiUAGEBAB",
  "EEACEBACEnOAEEGACEBACEbACEiVAIECABEBACEjKABEBABECAGEBABEjFABEBABECAEEBAFEoDAJEBACEoAACEBABEE",
  "ABEkQAEECACEEABEhAAKEhIAGECAEEIABEJAGECADEhOANEBACEmGABEBADEBABEmJAHEBAGEBABEiSAWECAHEBACEBA",
  "CEjaAGEDABEBACEBAHEBABEiIACEDABEBABEqbACELACEhUAFEFABEBABEXABElmVAREGAPErmIAMEDADEiuAAFEhbAH",
  "EhgYABEhfAEEiRABEzlYACEBAEEkycAhOECAXExAADEJAQECAHEeAEEkUADEh9bAhXEEAhSEIABEOABEWAFEBAPEhqQA",
  "HEBARECAHEBACEBAFEjEABElAAHErXABEhdAEEvcAEEneACEnTABECABEHACEFABEuaAHEhJAiEDIE4l1VABEeAjAEkA",
  "AnQEl-wQA"]

/-- The joining type of a character. -/
def joiningType (c : Char) : JoiningType := JoiningType.ofCode (valueInRuns joiningRuns c.toNat)

end Unicode
end CurlScribe
