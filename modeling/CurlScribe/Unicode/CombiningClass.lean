import CurlScribe.Unicode.Packed

/-!
# Combining classes

Marks of different classes do not interact, so their order says nothing. The class 0 belongs to all
characters that never change places, the class 9 to those that suppress a vowel.
-/

namespace CurlScribe
namespace Unicode

/-- The canonical combining classes in runs. -/
def combiningRuns : List Nat := unpack [
  "4AAVnGBnIEmcBnIBmYFmcCmKEmcCmKLmcFBEmcInGBnQBnGDmcDnGCmcBADnGEmcBnGBnICmcBnGBnJCnKBnJCnKBnJN",
  "nGoTAFnGoJABmcEnGBmcDnGBmeBmcGnGGmcCnGBmcCnGBmeBnEBnGBKBLBMBNBOBPBQBRBSCTBUBVBWBABXBABYBZBAB",
  "nGBmcBABSiIAInGBeBfBhAhQABbBcBdBeBfBhABhBBhCCnGCmcFnGBmcCnGBmcQABhDjFAHnGCAEnGBmcBnGCACnGBAB",
  "mcCnGBmchDABhEeABnGBmcCnGBmcCnGDmcBnGCmcBnGBmcDnGBmcBnGBmcBnGBmcBnGBmcCnGlAAHnGBmcBnGJABmcYA",
  "EnGBAJnGBADnGBAFnGhLADmchbACnGDmcEnGhKAFnGFmcOnGBABmcCnGBmcCnGBmcDnGDmcBbBcBdDnGBmcCnGCmcFnG",
  "hcABHQABJDABnGBmcCnGjHABHQABJhQABnGhdABHQABJjOABHQABJjOABHQABJjfABJjOABHQABJHABiUBibjFABHQAB",
  "JjNACJQABJjcABJjNACjHBJNAEjLjMACjWBJNAEjaiMACmcbABmcBABmcBABmYhXABkBBkCBABkEFAEkCCABkCBACnGB",
  "JBACnGheABmcjQABHBACJiSABmc2PADnG9UACJeABJkdABJKABnGmLABnEkPABmeBnGBmcmbABnGBmciHABJUAInGCAB",
  "mchQAFnGGmcCnGBmcBACmcCnGCmcFnGBmcSnGBmcCAGnGBmcEnGBnKiIABHPABJhGABnGBmcHnGhWACJhaABHLACJiDA",
  "BHkYADnGBABBFmcCnGEmcBnGBAHBEABmcGABnGDACnGmGACnGBmcHnGBmcCnGBnKBmWBmcBmKhFnGBnICnEBmcBmaBnG",
  "BnJBmcBnGBmc2QACnGCBEnGDBCnGEABnGDACBBnGBmcBnGCBEmcBnGi-eADnGkNABJjAAhAnGxKABmaBnEBnIBmeCnAj",
  "JACI9uUABnGEAKnGhAACnGiQACnGoUABJhFABJkXABJbASnGhZADmchFABJifABHMABJnPABnGBACnGBmcCACnGFACnG",
  "BABnGhUABJnWABJz5QABa4BAHnGHmcCnG+NABmcnCABmckVAFnGh0SABmcBABnGhIABnGBBBmcEABJlFABnGBmcxdAEn",
  "GiBAFnGpdACnGiNACmcBADmciGACmcDnGBmcBnGEmchRABnGBmcBnGBmcmAABJhJABJOABJhZABJBHiFADnGhQACJheA",
  "BHiMABJJABHjKABJBHlSABHBJiQACHQABJYAHnGDAFnGiZADJjRABJDABHXABnGjDABJBHnbABJBHjeABJjWABJBHjTA",
  "BJoNABJBHoCACJEABHkcABJiTABJSABJiRABJtFABJoCABHBACJiRABJtJACJwvMABJiuAAFBhbAHnGhlZACGzlMABBl",
  "mGACmYDBDABnCFmYIAImcCAFnGCmceAEnGkUADnGjtbAHnGBARnGCAHnGBACnGBAFnGjEABnGlAAHnGrXABnGhdAEnGv",
  "cACnIBmcBnGneABnGBmcnTABnGCABnGHACnGFABnGuaAHmcjNAGnGBH+l1VA"]

/-- The canonical combining class of a character. -/
def combiningClass (c : Char) : Nat :=
  if c.toNat < 0x300 then 0 else valueInRuns combiningRuns c.toNat

/-- Does the character suppress the vowel of the letter before it? -/
def isVirama (c : Char) : Bool := combiningClass c == 9

end Unicode
end CurlScribe
