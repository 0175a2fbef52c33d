import CurlScribe.Unicode.Packed

/-!
# Visible characters

A character stands for itself in a row of others if it has a shape of its own: it is no control or
format character, no separator but the space, assigned, not ignorable, and does not extend the
character before it.
-/

namespace CurlScribe
namespace Unicode

/-- The characters of the general categories C, Zl, Zp and Zs other than the space, those of the
property `Default_Ignorable_Code_Point`, and those of the property `Grapheme_Extend` apart from the
halfwidth sound marks, which have a place of their own, in runs. -/
def hiddenRuns : List Nat := unpack [
  "AhAifhCMBySjQICGEHBBBUBnAHlGBhGChSCDhOBBBCBCBJbEGRKLBBhOVQBjFIBGCCBEhACBBediZLBOhLJHDYEBJBDB",
  "HPBZFBBLFhAQhKhZhXBBBEIEBDHKCdBCBICCCWBHBBDEDBBCGCCCBBNCBDEYFBBGECCWBHBCBCBCEDYEBBHKCDBBMBBJ",
  "BDBWBHBCBFDEIBBCDBPCEMHBICBICCCWBHBCBFDBCBGCCCPCBDESLBBGDDBEDCBBBCDCDDDMFBBCDDBDDBVVGDBIBDBX",
  "BQDBDETDBCCCEKHKBLBDBXBKBFDCCBBCXDBCEKBDOLBDBhJCBBCFDBDBCEDBKEaCCBSDYBJBBCHJCGHHKCDMhQBCLIIN",
  "hFCBBBFBYBBBKBCJBCFBBJKCEhAYCbBBBBBOBhESBFBCFhRIBGBNhFhNEBGBCCCZCEDQENBCCGBPBhIBBFBCkPCnIBEC",
  "HBBBEChJBEChBBECHBBBECPBhZBECiDFdDaGiWCGC0ABcDiZHSNTDCJSONBDPhUCBHIBCLJDKGKGLFKGiZHFChCBBFiG",
  "KfEECDECBGHBDhKCFLhMEaGLDhZCCDhYBBJBBCIGNKGKGOiWhQKEDIBdJMChAECGhYBBCDBBNhQICFPDheFhLCLLBNBH",
  "EBGBDCBFmAiAoWCGChGCGCIBBBBBBBfChVBPBOCGBTCDBJRYIhPRCCbBNDhChekME0aWLVh4UCrZDCFhNBBFBChYHCPX",
  "JHBHBHBHBHBHBHBHhBiehCaBiZMmWaQBhJGQBiWEjFFhLBhTBhKBiWJhQB8zNDhXJqcUhPEBKhACiQCGImdURBDBEBZC",
  "FEKGhYIiEKMYNBhGIZLBMeGhQBCECCCBNBLEHBZBhJGCCCLDBIBBCKChABhTBBDCCFCBBBYRCILGCGCGJHBHBhcEjVBC",
  "BEDKGq9EMXEhRooErOCjKhGHMFFBBYBFBBBCBCB0KhAQQKWhDBTBEEFBkHEkfBeDGCGCGCDDHBHNCCMBaBTBCBPCOhCj",
  "bFDEhNDiYBNDBhPhNkDdDhRQbEhEJeFhGKeBhFEOhKkeCKGhEEhEEhIIhULMBPBHBCBLBPBHBCDhUMpXJWKIYGBhKBJi",
  "FGCBBhMBCDBCXBiIIJhQTBCFhBDbFbhGhYEUChPPEBDBdKJHJHiAhAhFGMJhWDdCbFaHEMHiQiJhXhTNhTHhKMKGhGIY",
  "ICmQfBhKDBCCQGIJhHhIIWLJWSEEhGcUXJBBhWPHEeBCCBMhRECCCBEOZHKJhEFBJSIhDBDLhUJBBIECBQBULSBcDCEG",
  "BChfHBBBEBPBLGhPBDNKICBICCCWBHBCBFDBBBBECCCCDBMHcKBBCBBhGBBBCPBBCDBBDBChHhYICDBBVBBBDehQBCGB",
  "BCBBCBCEIKlGhPBCGECBCbhEhTICBBCELKGNThLBBBCICGKGUcbDBBCEBJXlZhPJBCBjEiTMICBCIBCBYBFBCGEBDJKi",
  "GIChKIEBEbBKhIGCEIJBGCDhONBCJNiJHKiXBDBBBiYhCOKGJBhGOBBGKdDhAZBHBCBiLHBCBhGVBJKGGBCBhFECBBBB",
  "HKGhMEKnWTCEJPBhEICDXiWBPhSN8bjGjPBFLmEiyMjDNhhQRGZj8bFyHm1ZeMDDKh2GxZHfBKEiRBKGeHBKhQHPKKBH",
  "BVFTtQhamGibFZCZhMiLFhYLNiAEOFJnmWhJhAjBjTovdEBHBCBpDPBdDCBOEIsMioEjLFNDJHKCBCBj7AndDtUGXPRi",
  "fjUhcnWKhHChcFDWCHeEhdViCDBjaUMUMiXJZkHiVBiHBCCBCCCEBMBBBHBiBBECIBHBcBEBFBBDHBqUCpECxShXEhSI",
  "BOBHhjUfGGoFhekShNKHCKECqAeShMEKFBuQcEKmWeCLEBmAfBDBCBHCFJCnAHBEBCBPBmFCJhQiEHBEKEC4RiEiMhdm",
  "CEBbBCBBCBBKBEBBBBGBEBBBBBBDBCBBCBBBBBBBBBBCBBCEBHBEBEBBBKBRFDBFBRhUCoOhMEjEMPCPBPBhFKlOhYdN",
  "hMEJHCOGka+ZDRDNDmaGMEBPMEhYIKGhIIeCMECOJhHqYIOCNDLDhZBBEQCMEKHkTBjHhgFhp3AhAkoeCl0OCnpRPzOi",
  "tCwehvCk6LFopK7y8G"]

/-- Does the character stand for itself? -/
def isVisible (c : Char) : Bool :=
  if c.toNat < 0x7F then 0x20 ≤ c.toNat else !inRuns false hiddenRuns c.toNat

end Unicode
end CurlScribe
